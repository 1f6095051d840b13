import PageCompiler.Proofs.ClassText.ProgramSteps
import PageCompiler.Proofs.ClassText.VariableScopes

-- The name of a copy tells the variable and the depth, so that no two variables share one; but it
-- may be the name of another variable of the page, which is then overwritten.
namespace PageCompiler

namespace ClassText

theorem toList_copyName (depth : Nat) (name : String) :
    (copyName depth name).toList = name.toList ++ '_' :: (toString depth).toList := by
  simp [copyName]

theorem copyName_inj {depth depth' : Nat} {name name' : String} :
    copyName depth name = copyName depth' name' ↔ depth = depth' ∧ name = name' := by
  refine ⟨fun h => ?_, by rintro ⟨rfl, rfl⟩; rfl⟩
  rw [← String.toList_inj, toList_copyName, toList_copyName] at h
  -- There is no further blank behind the last one, since a number has digits only.
  obtain ⟨hname, hdigits⟩ := Text.append_cons_inj_right (by simp) (by simp) h
  have hdepth := congrArg (Nat.ofDigitChars 10 · 0) hdigits
  exact ⟨by simpa using hdepth, String.toList_inj.mp hname⟩

theorem length_lt_copyName (depth : Nat) (name : String) :
    name.length < (copyName depth name).length := by
  rw [← String.length_toList, ← String.length_toList, toList_copyName, List.length_append,
    List.length_cons]
  omega

-- The values that the variables of a method have.
abbrev Locals (α : Type) := String → α

-- What a line that copies a variable does to the values.
def Line.copy {α : Type} (σ : Locals α) : Line → Locals α
  | plain (.save _ copy name) => Function.update σ copy (σ name)
  | plain (.restore name copy) => Function.update σ name (σ copy)
  | _ => σ

def copyAll {α : Type} (σ : Locals α) (lines : List Line) : Locals α := lines.foldl Line.copy σ

section

variable {α : Type} {depth : Nat} {saved : List (Option String × String)} {σ : Locals α}
  {name : String}

theorem copyAll_saveLines_cons (entry : Option String × String) :
    copyAll σ (saveLines depth (entry :: saved)) =
      copyAll (Function.update σ (copyName depth entry.2) (σ entry.2)) (saveLines depth saved) := rfl

theorem copyAll_restoreLines_cons (entry : Option String × String) :
    copyAll σ (restoreLines depth (entry :: saved)) =
      copyAll (Function.update σ entry.2 (σ (copyName depth entry.2))) (restoreLines depth saved) :=
  rfl

theorem copyAll_saveLines_of_ne (h : ∀ entry ∈ saved, name ≠ copyName depth entry.2) :
    copyAll σ (saveLines depth saved) name = σ name := by
  induction saved generalizing σ with
  | nil => rfl
  | cons entry saved ih =>
    obtain ⟨hentry, hsaved⟩ := List.forall_mem_cons.mp h
    rw [copyAll_saveLines_cons, ih hsaved, Function.update_of_ne hentry]

theorem copyAll_restoreLines_of_ne (h : ∀ entry ∈ saved, name ≠ entry.2) :
    copyAll σ (restoreLines depth saved) name = σ name := by
  induction saved generalizing σ with
  | nil => rfl
  | cons entry saved ih =>
    obtain ⟨hentry, hsaved⟩ := List.forall_mem_cons.mp h
    rw [copyAll_restoreLines_cons, ih hsaved, Function.update_of_ne hentry]

-- A variable is in its copy, unless saving the others has changed it.
theorem copyAll_saveLines (h : ∀ entry ∈ saved, name ≠ copyName depth entry.2)
    (hmem : name ∈ saved.map Prod.snd) :
    copyAll σ (saveLines depth saved) (copyName depth name) = σ name := by
  induction saved generalizing σ with
  | nil => cases hmem
  | cons entry saved ih =>
    obtain ⟨hentry, hsaved⟩ := List.forall_mem_cons.mp h
    rw [copyAll_saveLines_cons]
    by_cases hagain : name ∈ saved.map Prod.snd
    · rw [ih hsaved hagain, Function.update_of_ne hentry]
    · have hname : name = entry.2 := (List.mem_cons.mp hmem).resolve_right hagain
      subst hname
      rw [copyAll_saveLines_of_ne, Function.update_self]
      intro other hother heq
      exact hagain ((copyName_inj.mp heq).2 ▸ List.mem_map_of_mem hother)

-- A variable gets the value of its copy, unless restoring the others has changed that.
theorem copyAll_restoreLines (h : ∀ entry ∈ saved, entry.2 ≠ copyName depth name)
    (hmem : name ∈ saved.map Prod.snd) :
    copyAll σ (restoreLines depth saved) name = σ (copyName depth name) := by
  induction saved generalizing σ with
  | nil => cases hmem
  | cons entry saved ih =>
    obtain ⟨hentry, hsaved⟩ := List.forall_mem_cons.mp h
    rw [copyAll_restoreLines_cons]
    by_cases hagain : name ∈ saved.map Prod.snd
    · rw [ih hsaved hagain, Function.update_of_ne hentry.symm]
    · have hname : name = entry.2 := (List.mem_cons.mp hmem).resolve_right hagain
      subst hname
      rw [copyAll_restoreLines_of_ne, Function.update_self]
      intro other hother heq
      exact hagain (heq ▸ List.mem_map_of_mem hother)

end

-- If just one variable is true, it is false when something has been saved in it: what is true then
-- has no shorter name, and a copy has a longer one than what it was made of.
theorem copyAll_saveLines_eq_false {depth : Nat} {saved : List (Option String × String)}
    {σ : Locals Bool} {copy : String} (hσ : ∀ name, σ name = true → copy.length ≤ name.length)
    (h : σ copy = false ∨ ∃ entry ∈ saved, copy = copyName depth entry.2) :
    copyAll σ (saveLines depth saved) copy = false := by
  induction saved generalizing σ with
  | nil => simpa [copyAll, saveLines] using h
  | cons entry saved ih =>
    rw [copyAll_saveLines_cons]
    have hlonger := length_lt_copyName depth entry.2
    refine ih (fun name hname => ?_) ?_
    · by_cases heq : name = copyName depth entry.2
      · subst heq
        rw [Function.update_self] at hname
        exact (hσ _ hname).trans hlonger.le
      · rw [Function.update_of_ne heq] at hname
        exact hσ name hname
    · by_cases heq : copy = copyName depth entry.2
      · subst heq
        rw [Function.update_self, Bool.eq_false_iff]
        exact .inl fun htrue => absurd (hσ _ htrue) hlonger.not_ge
      · rw [Function.update_of_ne heq]
        simpa [heq] using h

namespace Saving

variable {x : Context} (k : Saving x)

def names : List String := k.saved.map Prod.snd

def copies : List String := k.saved.map fun entry => copyName k.data.nestingLevel entry.2

-- No copy has the name of a variable of the page.
def Hygienic : Prop := ∀ name ∈ k.copies, ¬IsVariable x name

-- Saving leaves the variables of the page as they are.
def Spares : Prop :=
  ∀ (σ : Locals Bool) (name : String), IsVariable x name → copyAll σ k.saves name = σ name

-- Whatever has happened to the variables after they were saved, those that were saved get back
-- their values, if nothing has happened to the copies; the others keep what they have.
def GivesBack : Prop :=
  ∀ (α : Type) (σ τ : Locals α), (∀ copy ∈ k.copies, τ copy = copyAll σ k.saves copy) →
    ∀ name, copyAll τ k.restores name = if name ∈ k.names then σ name else τ name

variable {k}

theorem isVariable_of_mem_names {name : String} (h : name ∈ k.names) : IsVariable x name := by
  obtain ⟨entry, hentry, rfl⟩ := List.mem_map.mp h
  obtain ⟨-, v, hv, hname⟩ := k.exposed entry hentry
  rw [← hname]
  exact .exposed k.handles.mem_preorder (List.mem_append_left _ hv)

theorem Hygienic.ne_copyName (h : k.Hygienic) {name : String} (hname : IsVariable x name) :
    ∀ entry ∈ k.saved, name ≠ copyName k.data.nestingLevel entry.2 := by
  rintro entry hentry rfl
  exact h _ (List.mem_map_of_mem hentry) hname

theorem hygienic_iff_spares : k.Hygienic ↔ k.Spares := by
  constructor
  · intro h σ name hname
    exact copyAll_saveLines_of_ne (h.ne_copyName hname)
  · intro h copy hcopy hvariable
    obtain ⟨entry, hentry, rfl⟩ := List.mem_map.mp hcopy
    have hkept := h (fun name => name == copyName k.data.nestingLevel entry.2) _ hvariable
    have hlost := copyAll_saveLines_eq_false
      (σ := fun name => name == copyName k.data.nestingLevel entry.2)
      (fun name hname => by rw [eq_of_beq hname]) (.inr ⟨entry, hentry, rfl⟩)
    rw [Saving.saves, hlost] at hkept
    simp at hkept

theorem Hygienic.givesBack (h : k.Hygienic) : k.GivesBack := by
  intro α σ τ hcopies name
  split
  · rename_i hname
    have hother : ∀ entry ∈ k.saved, entry.2 ≠ copyName k.data.nestingLevel name := by
      intro entry hentry
      obtain ⟨own, hown, rfl⟩ := List.mem_map.mp hname
      exact h.ne_copyName (isVariable_of_mem_names (List.mem_map_of_mem hentry)) own hown
    obtain ⟨own, hown, rfl⟩ := List.mem_map.mp hname
    rw [Saving.restores, copyAll_restoreLines hother hname, hcopies _ (List.mem_map_of_mem hown)]
    exact copyAll_saveLines (h.ne_copyName (isVariable_of_mem_names hname)) hname
  · rename_i hname
    exact copyAll_restoreLines_of_ne fun entry hentry heq =>
      hname (heq ▸ List.mem_map_of_mem hentry)

end Saving

namespace Program

variable {x : Context} {e : Leave}

-- The actions of a program with what they save.
def savings : {cell : String} → Program x e cell → List (Saving x)
  | _, skip | _, line .. | _, leave | _, declare .. | _, call .. => []
  | _, seq p q => p.savings ++ q.savings
  | _, block _ p | _, ensured p _ | _, region _ p | _, buffered _ p | _, repeated _ p
  | _, value _ p _ _ => p.savings
  | _, action k p => k :: p.savings

end Program

-- A line that neither declares nor copies a variable of the page.
def Line.isApart : Line → Bool
  | .plain (.declare ..) | .plain (.save ..) | .plain (.restore ..) => false
  | _ => true

theorem Line.isApart_of_isCalm {line : Line} {cell : String} (h : line.isCalm cell = true) :
    line.isApart = true := by
  unfold isApart
  split
  · cases h
  · cases h
  · cases h
  · rfl

namespace Program

variable {x : Context} {e : Leave} {cell : String}

theorem infix_of_mem_savings {p : Program x e cell} {k : Saving x} (h : k ∈ p.savings) :
    ∃ inside, k.saves ++ inside ++ k.restores <:+: p.lines := by
  have hinfix : ∀ (before behind : List Line) {l : List Line},
      (∃ inside, k.saves ++ inside ++ k.restores <:+: l) →
        ∃ inside, k.saves ++ inside ++ k.restores <:+: before ++ l ++ behind := by
    rintro before behind l ⟨inside, hl⟩
    exact ⟨inside, hl.trans (List.infix_append ..)⟩
  induction p with
  | skip | line | leave | declare | call => cases h
  | seq p q ihp ihq =>
    rcases List.mem_append.mp h with h | h
    · exact hinfix [] _ (ihp h)
    · simpa [lines] using hinfix p.lines [] (ihq h)
  | block head p ih => exact hinfix [_] _ (ih h)
  | ensured p tail ih => exact hinfix [_] _ (ih h)
  | region handler p ih => exact hinfix [_, _] _ (ih h)
  | buffered handler p ih => exact hinfix _ _ (ih h)
  | repeated handler p ih => exact hinfix [_] _ (ih h)
  | value hvalue p name trim ih => exact hinfix [_] _ (ih h)
  | action k' p ih =>
    rcases List.mem_cons.mp h with rfl | h
    · exact ⟨p.lines, List.infix_refl _⟩
    · exact hinfix _ _ (ih h)

-- Variables are declared that the page declares, and copied by what saves them.
theorem forall_mem_lines {P : Line → Prop} (hapart : ∀ line, line.isApart = true → P line)
    (hdeclare : ∀ typeName name, IsVariable x name → P (.plain (.declare typeName name)))
    {p : Program x e cell} (hcopy : ∀ k ∈ p.savings, ∀ line ∈ k.saves ++ k.restores, P line) :
    ∀ line ∈ p.lines, P line := by
  have haround : ∀ (before : List Line) {behind l : List Line},
      (∀ line ∈ before, line.isApart = true) → (∀ line ∈ behind, line.isApart = true) →
        (∀ line ∈ l, P line) → ∀ line ∈ before ++ l ++ behind, P line :=
    fun _ _ _ hbefore hbehind hl =>
    List.forall_mem_append.mpr ⟨List.forall_mem_append.mpr
      ⟨fun line hline => hapart line (hbefore line hline), hl⟩,
        fun line hline => hapart line (hbehind line hline)⟩
  induction p with
  | skip => exact fun _ h => nomatch h
  | line l hcalm => exact List.forall_mem_singleton.mpr (hapart l (Line.isApart_of_isCalm hcalm))
  | leave => exact List.forall_mem_singleton.mpr (hapart _ rfl)
  | declare typeName h => exact List.forall_mem_singleton.mpr (hdeclare typeName _ h)
  | call method parent =>
    exact haround [] (l := []) (by simp) (by simp [Line.isApart, Line.close]) (by simp)
  | seq p q ihp ihq =>
    obtain ⟨hp, hq⟩ := List.forall_mem_append.mp hcopy
    exact List.forall_mem_append.mpr ⟨ihp hp, ihq hq⟩
  | block head p ih =>
    exact haround [_] (by simp [Line.isApart, Line.block])
      (by simp [Line.isApart, Line.close]) (ih hcopy)
  | ensured p tail ih =>
    exact haround [_] (by simp [Line.isApart, Line.block])
      (by simp [Line.isApart, Line.code, Line.close]) (ih hcopy)
  | region handler p ih =>
    exact haround [_, _] (by simp [Line.isApart, Line.code, Line.block])
      (by simp [Line.isApart, Line.code, Line.block, Line.close, recovery]) (ih hcopy)
  | buffered handler p ih =>
    exact haround _
      (by simp [Line.isApart, Line.code, Line.block, Line.close, pushLines, evalOtherThan])
      (by simp [Line.isApart, Line.block, Line.close, popLines, evalOtherThan]) (ih hcopy)
  | repeated handler p ih =>
    exact haround [_] (by simp [Line.isApart, Line.block])
      (by simp [Line.isApart, Line.code, Line.block, Line.close]) (ih hcopy)
  | value hvalue p name trim ih =>
    exact haround [_] (by simp [Line.isApart]) (by simp [Line.isApart]) (ih hcopy)
  | action k p ih =>
    obtain ⟨hk, hp⟩ := List.forall_mem_cons.mp hcopy
    obtain ⟨hsaves, hrestores⟩ := List.forall_mem_append.mp hk
    exact List.forall_mem_append.mpr ⟨List.forall_mem_append.mpr ⟨hsaves, ih hp⟩, hrestores⟩

end Program

-- The variable that a line declares.
def Line.declared? : Line → Option String
  | .plain (.declare _ name) | .plain (.save (some _) name _) => some name
  | _ => none

section

variable {moves : String → List Move} {b b' : Blocks} {name : String}

theorem Blocks.sees_of_declare {other : String} (h : b.declare other = some b')
    (hname : b'.sees name = true) : b.sees name = true ∨ other = name := by
  unfold Blocks.declare at h
  split at h
  · cases h
  · split at h
    · cases h
    · obtain rfl := Option.some.inj h
      simp only [Blocks.sees, List.any_cons, Bool.or_eq_true, List.contains_iff_mem,
        List.mem_cons] at hname ⊢
      tauto

-- What is seen behind a move was seen before.
theorem Blocks.sees_of_move {move : Move} (h : b.move move = some b')
    (hname : b'.sees name = true) : b.sees name = true := by
  unfold Blocks.move at h
  split at h
  · obtain rfl := Option.some.inj h
    simpa [Blocks.sees] using hname
  · cases h
  · obtain rfl := Option.some.inj h
    simp only [Blocks.sees, List.any_cons, Bool.or_eq_true]
    exact .inr hname

theorem Blocks.sees_of_moves {ms : List Move} (h : ms.foldlM Blocks.move b = some b')
    (hname : b'.sees name = true) : b.sees name = true := by
  induction ms generalizing b with
  | nil =>
    cases h
    exact hname
  | cons move ms ih =>
    rw [List.foldlM_cons] at h
    obtain ⟨b₁, hmove, h⟩ := Option.bind_eq_some_iff.mp h
    exact Blocks.sees_of_move hmove (ih h)

theorem Line.sees_of_blocks {line : Line} (h : line.blocks moves b = some b')
    (hname : b'.sees name = true) : b.sees name = true ∨ line.declared? = some name := by
  cases line with
  | plain st =>
    cases st with
    | declare typeName other =>
      exact (Blocks.sees_of_declare h hname).imp_right (congrArg some)
    | save newOf copy other =>
      cases newOf with
      | some typeName =>
        dsimp only [Line.blocks, Statement.blocks] at h
        split at h
        · exact (Blocks.sees_of_declare h hname).imp_right (congrArg some)
        · cases h
      | none =>
        dsimp only [Line.blocks, Statement.blocks] at h
        split at h
        · cases h
          exact .inl hname
        · cases h
    | restore other copy | sync typeName other =>
      dsimp only [Line.blocks, Statement.blocks] at h
      split at h
      · cases h
        exact .inl hname
      · cases h
    | raw text => exact .inl (Blocks.sees_of_moves h hname)
    | _ =>
      cases h
      exact .inl hname
  | inner t =>
    cases h
    exact .inl hname
  | opens head =>
    have hopens : b.move .opens = some b' := h
    exact .inl (Blocks.sees_of_move hopens hname)
  | turns head =>
    obtain ⟨b₁, hcloses, hopens⟩ := Option.bind_eq_some_iff.mp h
    exact .inl (Blocks.sees_of_move hcloses (Blocks.sees_of_move hopens hname))
  | closes tail =>
    have hcloses : b.move .closes = some b' := h
    exact .inl (Blocks.sees_of_move hcloses hname)

-- What is in sight behind lines was declared by one of them, or was in sight before.
theorem exists_declared {lines : List Line} (h : blocksAfter moves b lines = some b')
    (hname : b'.sees name = true) :
    b.sees name = true ∨ ∃ line ∈ lines, line.declared? = some name := by
  induction lines generalizing b with
  | nil =>
    cases h
    exact .inl hname
  | cons line lines ih =>
    rw [blocksAfter, List.foldlM_cons] at h
    obtain ⟨b₁, hline, h⟩ := Option.bind_eq_some_iff.mp h
    rcases ih h with hseen | ⟨other, hother, hdeclared⟩
    · exact (Line.sees_of_blocks hline hseen).imp_right fun hdeclared =>
        ⟨line, List.mem_cons_self .., hdeclared⟩
    · exact .inr ⟨other, List.mem_cons_of_mem _ hother, hdeclared⟩

-- A method that is in order is so at each of its lines.
theorem WellScoped.exists_blocks {before behind : List Line} {line : Line}
    (h : WellScoped moves (before ++ line :: behind)) :
    ∃ b b', blocksAfter moves [[]] before = some b ∧ line.blocks moves b = some b' := by
  obtain ⟨last, hlast⟩ := Option.isSome_iff_exists.mp h
  rw [blocksAfter, List.foldlM_append] at hlast
  obtain ⟨b, hbefore, hlast⟩ := Option.bind_eq_some_iff.mp hlast
  rw [List.foldlM_cons] at hlast
  obtain ⟨b', hline, -⟩ := Option.bind_eq_some_iff.mp hlast
  exact ⟨b, b', hbefore, hline⟩

end

variable {x : Context} {moves : String → List Move}

-- The lines of a method are those of a program, with a head and an end if it was split off.
theorem Annotated.exists_program (hx : Annotated x) {s : State} {body : Code}
    (h : pageCode x {} = .ok (body, s)) {lines : List Line} (hlines : lines ∈ methodBodies body s) :
    ∃ e, ∃ p : Program x e Names.pushCount, lines = p.lines ∨ ∃ name, lines = splitLines name p.lines := by
  obtain ⟨⟨p, hp⟩, hs⟩ := hx.composed_pageCode h
  simp only [methodBodies, State.bodies, List.mem_cons, List.mem_append, List.mem_map] at hlines
  rcases hlines with rfl | ⟨code, hcode, rfl⟩ | ⟨code, hcode, rfl⟩
  · exact ⟨_, p, .inl hp.symm⟩
  · obtain ⟨name, q, hq⟩ := hs.methods code hcode
    exact ⟨_, q, .inr ⟨name, hq⟩⟩
  · obtain ⟨q, hq⟩ := hs.deferred code hcode
    exact ⟨_, q, .inl hq⟩

-- How the lines of a method deal with variables, by what saves some of them.
structure Copies (x : Context) (lines : List Line) (savings : List (Saving x)) : Prop where
  -- Saving and restoring stand around the statements of an action.
  around : ∀ k ∈ savings, ∃ inside, k.saves ++ inside ++ k.restores <:+: lines
  -- Lines declare variables of the page, or they save and restore.
  apart : ∀ line ∈ lines, line.isApart = true ∨
    (∃ typeName name, line = .plain (.declare typeName name) ∧ IsVariable x name) ∨
      ∃ k ∈ savings, line ∈ k.saves ∨ line ∈ k.restores

theorem Program.copies {e : Leave} {cell : String} (p : Program x e cell) :
    Copies x p.lines p.savings where
  around _ hk := infix_of_mem_savings hk
  apart := forall_mem_lines (fun _ hline => .inl hline)
    (fun typeName name hname => .inr (.inl ⟨typeName, name, rfl, hname⟩))
    fun k hk _ hline => .inr (.inr ⟨k, hk, List.mem_append.mp hline⟩)

-- The head and the end of a method have nothing to do with variables.
theorem Copies.split {lines : List Line} {savings : List (Saving x)} (h : Copies x lines savings)
    (name : String) : Copies x (splitLines name lines) savings where
  around k hk := by
    obtain ⟨inside, hinside⟩ := h.around k hk
    exact ⟨inside, hinside.trans (List.infix_append ..)⟩
  apart := by
    simp only [splitLines, List.forall_mem_append, List.forall_mem_cons]
    refine ⟨⟨⟨.inl rfl, .inl rfl, .inl rfl, by simp⟩, h.apart⟩, .inl rfl, .inl rfl, by simp⟩

-- A variable is saved by an action in a copy that is named for its depth.
theorem Copies.exists_saving {lines : List Line} {savings : List (Saving x)}
    (h : Copies x lines savings) {newOf : Option String} {copy name : String}
    (hmem : .plain (.save newOf copy name) ∈ lines) :
    ∃ k ∈ savings, (newOf, name) ∈ k.saved ∧ copy = copyName k.data.nestingLevel name := by
  rcases h.apart _ hmem with hapart | ⟨_, _, hline, -⟩ | ⟨k, hk, hline | hline⟩
  · cases hapart
  · cases hline
  · obtain ⟨⟨newOf', name'⟩, hentry, heq⟩ := List.mem_map.mp hline
    simp only [Line.plain.injEq, Statement.save.injEq] at heq
    obtain ⟨rfl, rfl, rfl⟩ := heq
    exact ⟨k, hk, hentry, rfl⟩
  · obtain ⟨entry, -, heq⟩ := List.mem_map.mp hline
    cases heq

-- A copy is new where none of its name is in sight. Otherwise it is a variable of the page that was
-- declared under this name, or the copy that was made of the same variable before.
theorem Copies.sight {lines before behind : List Line} {savings : List (Saving x)}
    (h : Copies x lines savings) (hscoped : WellScoped moves lines) {newOf : Option String}
    {copy name : String} (hsplit : lines = before ++ .plain (.save newOf copy name) :: behind) :
    ∃ b, blocksAfter moves [[]] before = some b ∧ (b.sees copy = true ↔ newOf = none) ∧
      (newOf = none → (∃ typeName, .plain (.declare typeName copy) ∈ before) ∨
        ∃ typeName, .plain (.save (some typeName) copy name) ∈ before) := by
  subst hsplit
  obtain ⟨b, b', hbefore, hline⟩ := hscoped.exists_blocks
  have hsees : b.sees copy = true ↔ newOf = none := by
    cases newOf with
    | some typeName =>
      dsimp only [Line.blocks, Statement.blocks] at hline
      split at hline
      · unfold Blocks.declare at hline
        split at hline
        · cases hline
        · rename_i hnew
          simpa using hnew
      · cases hline
    | none =>
      dsimp only [Line.blocks, Statement.blocks] at hline
      split at hline
      · rename_i hseen
        rw [Bool.and_eq_true] at hseen
        simpa using hseen.2
      · cases hline
  refine ⟨b, hbefore, hsees, fun hnone => ?_⟩
  obtain ⟨line, hmem, hdeclared⟩ := (exists_declared hbefore (hsees.mpr hnone)).resolve_left
    (by simp [Blocks.sees])
  unfold Line.declared? at hdeclared
  split at hdeclared
  · cases hdeclared
    exact .inl ⟨_, hmem⟩
  · cases hdeclared
    rename_i typeName other
    have hsave : .plain (.save newOf copy name) ∈ before ++ .plain (.save newOf copy name) :: behind :=
      List.mem_append_right _ (List.mem_cons_self ..)
    obtain ⟨k, -, -, hcopy⟩ := h.exists_saving hsave
    obtain ⟨k', -, -, hcopy'⟩ := h.exists_saving (List.mem_append_left _ hmem)
    obtain ⟨-, rfl⟩ := copyName_inj.mp (hcopy.symm.trans hcopy')
    exact .inr ⟨typeName, hmem⟩
  · cases hdeclared

end ClassText

open ClassText

-- A method that the page's own code does not disturb is in order.
theorem CompiledPage.Assembled.wellScoped {o : Options} {loader : Loader} {resolver : Resolver}
    {name : String} {p : CompiledPage} {c : CheckedPage} {body : Code} {s : State}
    {moves : String → List Move} (h : Assembled o loader resolver name p c body s) :
    ∀ lines ∈ methodBodies body s, Undisturbed moves lines → WellScoped moves lines := by
  have hbodies := h.writes.forall_bodies
    (P := fun lines => Undisturbed moves lines → WellScoped moves lines) (fun _ => rfl)
    (fun handler hs hcode => hcode.wellScoped_methodCode handler hs)
    (fun hs hcode => hcode.wellScoped hs) (by simp [State.bodies])
  exact List.forall_mem_cons.mpr ⟨h.writes.wellScoped rfl, hbodies⟩

-- In every method of the class of a page that compiles, variables of the page are saved and
-- restored around the statements of an action inside of another one of its name, in copies that are
-- named for the depth. Saving changes no variable of the page just if no copy has the name of one,
-- and then restoring changes those that were saved and no others. In a method that the page's own
-- code does not disturb, a copy whose name is in sight already was declared by a variable of the
-- page of this name, or when the same variable was saved before.
theorem CompiledPage.copies_ofUnit {o : Options} {loader : Loader}
    {resolver resolver' : Resolver} {name : String} {p : CompiledPage}
    (h : CompiledPage.ofUnit o loader resolver name = (.ok p, resolver'))
    (moves : String → List Move) :
    ∃ c body s, Assembled o loader resolver name p c body s ∧
      ∀ lines ∈ methodBodies body s, ∃ savings : List (Saving ⟨o, c⟩),
        Copies ⟨o, c⟩ lines savings ∧
        (∀ k ∈ savings, (k.Hygienic ↔ k.Spares) ∧ (k.Hygienic → k.GivesBack)) ∧
        (Undisturbed moves lines → ∀ before behind newOf copy name,
          lines = before ++ .plain (.save newOf copy name) :: behind →
          ∃ b, blocksAfter moves [[]] before = some b ∧ (b.sees copy = true ↔ newOf = none) ∧
            (newOf = none → (∃ typeName, .plain (.declare typeName copy) ∈ before) ∨
              ∃ typeName, .plain (.save (some typeName) copy name) ∈ before)) := by
  obtain ⟨c, body, s, hassembled⟩ := exists_assembled h
  refine ⟨c, body, s, hassembled, fun lines hlines => ?_⟩
  obtain ⟨e, q, hq⟩ := hassembled.annotated.exists_program hassembled.generated hlines
  have hcopies : Copies ⟨o, c⟩ lines q.savings := by
    rcases hq with rfl | ⟨name, rfl⟩
    · exact q.copies
    · exact q.copies.split name
  refine ⟨q.savings, hcopies, fun k _ => ⟨Saving.hygienic_iff_spares, Saving.Hygienic.givesBack⟩, ?_⟩
  intro hundisturbed before behind newOf copy name hsplit
  exact hcopies.sight (hassembled.wellScoped lines hlines hundisturbed) hsplit

-- An action that exposes a variable under the name of a copy of another one of its variables.
def copyLibrary : Library :=
  { uri := "urn:sample", shortName := "sample"
    tags := [
      { name := "sum", handlerClass := "sample.SumTag"
        exposed := [{ nameGiven := some "total", scope := .atBegin },
          { nameGiven := some "total_1", scope := .atBegin }] }] }

def copyUnits : Loader :=
  .ofUnits
    [("main.page", Text.Utf8.ofString
      "<%@ taglib prefix=\"s\" uri=\"urn:sample\" %><s:sum><s:sum/></s:sum>")]

-- The inner action saves one variable in the other.
theorem CompiledPage.copies_ofUnit_overwritten :
    ∃ p resolver c body s, CompiledPage.ofUnit {} copyUnits (.ofLibraries [copyLibrary])
        "main.page" = (.ok p, resolver) ∧
      Assembled {} copyUnits (.ofLibraries [copyLibrary]) "main.page" p c body s ∧
      IsVariable ⟨{}, c⟩ "total_1" ∧ .plain (.save none "total_1" "total") ∈ body.lines ∧
      ∃ k : Saving ⟨{}, c⟩, (none, "total") ∈ k.saved ∧
        (∃ inside, k.saves ++ inside ++ k.restores <:+: body.lines) ∧ ¬k.Spares := by
  have hrun : passes {} copyUnits (.ofLibraries [copyLibrary]) "main.page"
      (fun _ _ body _ => body.lines.contains (.plain (.save none "total_1" "total")) &&
        body.lines.contains (.plain (.declare "java.lang.String" "total_1"))) = true := by
    rw [copyUnits, Text.Utf8.ofString_ofList]
    decide +kernel
  obtain ⟨p, resolver, hp, htest⟩ := of_passes hrun
  obtain ⟨c, body, s, hassembled, hbodies⟩ := copies_ofUnit hp braces
  have hlines := htest hassembled
  simp only [Bool.and_eq_true, List.contains_iff_mem] at hlines
  obtain ⟨hsave, hdeclare⟩ := hlines
  obtain ⟨savings, hcopies, hexact, -⟩ := hbodies body.lines (List.mem_cons_self ..)
  have hvariable : IsVariable ⟨{}, c⟩ "total_1" := by
    rcases hcopies.apart _ hdeclare with hapart | ⟨_, _, hline, hname⟩ | ⟨k, hk, hline | hline⟩
    · cases hapart
    · cases hline
      exact hname
    · obtain ⟨entry, -, heq⟩ := List.mem_map.mp hline
      cases heq
    · obtain ⟨entry, -, heq⟩ := List.mem_map.mp hline
      cases heq
  obtain ⟨k, hk, hentry, hcopy⟩ := hcopies.exists_saving hsave
  refine ⟨p, resolver, c, body, s, hp, hassembled, hvariable, hsave, k, hentry,
    hcopies.around k hk, fun hspares => ?_⟩
  have hmem : "total_1" ∈ k.copies := by
    rw [hcopy]
    exact List.mem_map_of_mem hentry
  exact (hexact k hk).1.mpr hspares "total_1" hmem hvariable

end PageCompiler
