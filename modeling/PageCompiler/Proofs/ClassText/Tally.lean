import PageCompiler.Proofs.ClassText.Members
import Mathlib.Algebra.BigOperators.Intervals
import Mathlib.Data.Multiset.Bind
import Mathlib.Tactic.Abel

-- Lines that are put aside for the class count as soon as they are there, so that what a run adds
-- depends on the actions it splits off and on the deferred bodies it numbers, and on nothing else.
namespace PageCompiler.ClassText

variable {α : Type} {x : Context} {g : Line → List α} {W : NodeId → Multiset α}
  {D : Nat → Multiset α}

-- The number of a deferred body.
def Operand.number? : Operand → Option Nat
  | deferredBody number _ _ => some number
  | _ => none

-- A statement of the class itself.
def Statement.isField : Statement → Bool
  | declareFunctions .. | declareArray .. | declarePool _ | initPool _ | releasePool _
  | caseLabel _ => true
  | _ => false

-- A line of the class itself.
def Line.isOwn : Line → Bool
  | plain st => st.isField
  | opens (.deferred _) => true
  | _ => false

def tally (g : Line → List α) (lines : List Line) : Multiset α := (lines.flatMap g : List α)

theorem tally_append (g : Line → List α) (l l' : List Line) :
    tally g (l ++ l') = tally g l + tally g l' := by
  rw [tally, List.flatMap_append, ← Multiset.coe_add]
  rfl

theorem tally_cons (g : Line → List α) (line : Line) (l : List Line) :
    tally g (line :: l) = g line + tally g l := by
  rw [tally, List.flatMap_cons, ← Multiset.coe_add]
  rfl

@[simp] theorem tally_nil (g : Line → List α) : tally g [] = 0 := rfl

theorem tally_perm (g : Line → List α) {l l' : List Line} (h : l.Perm l') :
    tally g l = tally g l' :=
  Multiset.coe_eq_coe.mpr (h.flatMap_right g)

theorem Statement.isField_of_isPlain {st : Statement} (h : st.isPlain = true) :
    st.isField = false := by
  cases st <;> first | rfl | cases h

-- Something that is found at most where an action is split off or a deferred body is handed over.
structure Counts (x : Context) (g : Line → List α) (W : NodeId → Multiset α)
    (D : Nat → Multiset α) : Prop where
  bare : ∀ line : Line, line.isBare = true → g line = []
  plain : ∀ st : Statement, st.isField = false → (∀ op ∈ st.operands, op.number? = none) →
    g (.plain st) = []
  split : ∀ {id : NodeId} {data : CustomAction} {handler : String} (parent count : String),
    Handles x id data handler →
      (g (.opens (.call (methodName handler) parent count)) : Multiset α) +
        g (.opens (.method (methodName handler))) = W id
  hand : ∀ {owner : NodeId} {nested : List Variable} {hand : Operand → Statement}
    {handler : String} (number : Nat) (count : String), Hands x handler owner nested hand →
      (g (.plain (hand (.deferredBody number handler count))) : Multiset α) = D number

-- Something that is found in lines of the class itself alone.
theorem Counts.of_isOwn (hg : ∀ line : Line, line.isOwn = false → g line = []) :
    Counts x g (fun _ => 0) (fun _ => 0) where
  bare line h := hg line (by unfold Line.isBare at h; split at h <;> first | rfl | cases h)
  plain st hst _ := hg (.plain st) hst
  split _ _ _ := by rw [hg _ rfl, hg _ rfl]; rfl
  hand _ _ h := by cases h <;> exact congrArg _ (hg _ rfl)

-- A deferred body that is put into its place comes to the lines that are there.
theorem State.lines_fill {s : State} {number : Nat} {code : Code}
    (h : s.deferred[number]? = some none) (declared : List (List String)) :
    (State.lines { s with declared, deferred := s.deferred.set number (some code) }).Perm
      (s.lines ++ code.lines) := by
  obtain ⟨hlt, hnone⟩ := List.getElem?_eq_some_iff.mp h
  have hsplit := List.take_append_drop number s.deferred
  rw [List.drop_eq_getElem_cons hlt, hnone] at hsplit
  have hset : s.deferred.set number (some code) =
      s.deferred.take number ++ some code :: s.deferred.drop (number + 1) := by
    rw [List.set_eq_take_append_cons_drop, if_pos hlt]
  unfold State.lines
  rw [hset]
  conv =>
    rhs
    rw [← hsplit]
  simp only [List.flatMap_append, List.flatMap_cons, Option.getD_some, Option.getD_none,
    List.append_assoc, Code.lines_nil, List.nil_append]
  refine List.Perm.append_left _ (List.Perm.append_left _ (List.Perm.append_left _ ?_))
  exact List.perm_append_comm

-- What a run adds to the count.
structure Tallied (g : Line → List α) (W : NodeId → Multiset α) (D : Nat → Multiset α)
    (v : Multiset NodeId) (c : Point) (l : List Line) (c' : Point) : Prop where
  pending : ∀ op ∈ c'.pending, op.number? = none
  tally_eq : tally g (l ++ c'.state.lines) = tally g c.state.lines + v.bind W +
    ∑ k ∈ Finset.Ico c.state.deferred.length c'.state.deferred.length, D k

namespace Tallied

variable {v w : Multiset NodeId} {c c₁ c₂ : Point} {l l' : List Line}

-- Nothing is counted, and no line is put aside.
theorem quiet (hpending : ∀ op ∈ c₁.pending, op.number? = none) (hl : tally g l = 0)
    (hlines : tally g c₁.state.lines = tally g c.state.lines)
    (hdeferred : c₁.state.deferred = c.state.deferred) : Tallied g W D 0 c l c₁ := by
  refine ⟨hpending, ?_⟩
  rw [tally_append, hl, hlines, hdeferred, Finset.Ico_self, Finset.sum_empty, Multiset.zero_bind]
  abel

theorem append (h : Tallied g W D v c l c₁) (h' : Tallied g W D w c₁ l' c₂)
    (hle : c.state.deferred.length ≤ c₁.state.deferred.length)
    (hle' : c₁.state.deferred.length ≤ c₂.state.deferred.length) :
    Tallied g W D (v + w) c (l ++ l') c₂ := by
  refine ⟨h'.pending, ?_⟩
  have hfirst := h.tally_eq
  rw [tally_append] at hfirst
  rw [List.append_assoc, tally_append, h'.tally_eq, Multiset.add_bind,
    ← Finset.sum_Ico_consecutive D hle hle']
  calc _ = tally g l + tally g c₁.state.lines + w.bind W +
        ∑ k ∈ Finset.Ico c₁.state.deferred.length c₂.state.deferred.length, D k := by abel
    _ = _ := by
      rw [hfirst]
      abel

-- Lines around a run that are not counted.
theorem around (before behind : List Line) (h : Tallied g W D v c l c₁)
    (hbefore : tally g before = 0) (hbehind : tally g behind = 0) :
    Tallied g W D v c (before ++ l ++ behind) c₁ := by
  refine ⟨h.pending, ?_⟩
  have hrun := h.tally_eq
  rw [tally_append] at hrun
  rw [tally_append, tally_append, tally_append, hbefore, hbehind, add_zero, zero_add, hrun]

theorem zero_of_still (h : Tallied g W D 0 c l c) : tally g l = 0 := by
  have hrun := h.tally_eq
  rw [tally_append, Finset.Ico_self, Finset.sum_empty, Multiset.zero_bind, add_zero, add_zero,
    add_eq_right] at hrun
  exact hrun

end Tallied

namespace Counts

variable (hg : Counts x g W D)
include hg

theorem tally_bare {lines : List Line} (h : ∀ line ∈ lines, line.isBare = true) :
    tally g lines = 0 := by
  rw [tally, Multiset.coe_eq_zero]
  exact List.flatMap_eq_nil_iff.mpr fun line hline => hg.bare line (h line hline)

theorem tally_block (head : String) : tally g [.block head] = 0 :=
  hg.tally_bare (by simp [Line.block, Line.isBare])

theorem tally_close : tally g [.close] = 0 := hg.tally_bare (by simp [Line.close, Line.isBare])

theorem tally_marked (l : List Line) : tally g (marked l) = tally g l := by
  rw [tally, tally, flatMap_marked hg.bare]

theorem tally_plain {st : Statement} (hst : st.isField = false)
    (hops : ∀ op ∈ st.operands, op.number? = none) : tally g [.plain st] = 0 := by
  rw [tally, List.flatMap_singleton, hg.plain st hst hops]
  rfl

theorem tally_plains {β : Type} (f : β → Statement) (l : List β)
    (h : ∀ b ∈ l, (f b).isField = false ∧ (f b).operands = []) :
    tally g (l.map fun b => .plain (f b)) = 0 := by
  rw [tally, Multiset.coe_eq_zero, List.flatMap_eq_nil_iff, List.forall_mem_map]
  exact fun b hb => hg.plain _ (h b hb).1 (by simp [(h b hb).2])

theorem tally_codeLines (mark : Mark) (code : String) :
    tally g (codeLines mark code).lines = 0 := by
  rw [lines_codeLines]
  exact hg.tally_plains _ _ fun _ _ => ⟨rfl, rfl⟩

-- A method counts for its head and for the code that was split off.
theorem tally_methodCode (handler : String) (code : Code) :
    tally g (methodCode handler code).lines =
      g (.opens (.method (methodName handler))) + tally g code.lines := by
  have hmarked : marked (methodCode handler code).lines =
      .opens (.method (methodName handler)) :: marked code.lines := by simp [methodCode]
  rw [← hg.tally_marked, hmarked, tally_cons, hg.tally_marked]

-- So does its call; the lines of the method stand with the class.
theorem tallied_split {e : Leave} {v : Multiset NodeId} {s t : State} {p : Multiset Operand}
    {id : NodeId} {data : CustomAction} {handler : String} {code : Code} (parent count : String)
    (hid : Handles x id data handler)
    (h : Tallied g W D v ⟨{ s with declared := [[]] }, 0⟩ code.lines ⟨t, 0⟩)
    (hp : ∀ op ∈ p, op.number? = none) :
    Tallied g W D (id ::ₘ v) ⟨s, p⟩
      [.opens (.call (methodName handler) parent count), .plain (.leave e), .close]
      ⟨{ t with
          declared := s.declared, methods := t.methods ++ [methodCode handler code] }, p⟩ := by
  refine ⟨hp, ?_⟩
  have hrun : tally g (code.lines ++ t.lines) = tally g s.lines + v.bind W +
      ∑ k ∈ Finset.Ico s.deferred.length t.deferred.length, D k := h.tally_eq
  have hcall : tally g [.opens (.call (methodName handler) parent count), .plain (.leave e),
      .close] = g (.opens (.call (methodName handler) parent count)) := by
    rw [tally_cons, tally_cons, hg.plain _ rfl (by simp [Statement.operands]), hg.tally_close,
      Multiset.coe_nil, add_zero, add_zero]
  have hlines : tally g (State.lines { t with
      declared := s.declared, methods := t.methods ++ [methodCode handler code] }) =
      tally g t.lines + tally g (methodCode handler code).lines := by
    unfold State.lines
    simp only [List.flatMap_append, List.flatMap_singleton, tally_append]
    abel
  rw [tally_append] at hrun
  rw [tally_append, hcall, hlines, hg.tally_methodCode, Multiset.cons_bind,
    ← hg.split parent count hid]
  calc _ = g (.opens (.call (methodName handler) parent count)) +
        g (.opens (.method (methodName handler))) +
        (tally g code.lines + tally g t.lines) := by abel
    _ = _ := by
      rw [hrun]
      abel

-- A deferred body counts for the line that hands it over, under the number it was given first.
theorem tallied_defers {v : Multiset NodeId} {s t : State} {p : Multiset Operand}
    {owner : NodeId} {nested : List Variable} {hand : Operand → Statement} {handler : String}
    {code : Code} (count : String) (hhand : Hands x handler owner nested hand)
    (hgrown : s.deferred ++ [none] <+: t.deferred)
    (h : Tallied g W D v ⟨{ s with deferred := s.deferred ++ [none], declared := [[]] }, 0⟩
      code.lines ⟨t, 0⟩)
    (hp : ∀ op ∈ p, op.number? = none) :
    Tallied g W D v ⟨s, p⟩ [.plain (hand (.deferredBody s.deferred.length handler count))]
      ⟨{ t with declared := s.declared
                deferred := t.deferred.set s.deferred.length (some code) }, p⟩ := by
  refine ⟨hp, ?_⟩
  have hlt : s.deferred.length < t.deferred.length := by
    have hle := hgrown.length_le
    simp only [List.length_append, List.length_singleton] at hle
    omega
  have hempty : t.deferred[s.deferred.length]? = some none := by
    obtain ⟨more, hmore⟩ := hgrown
    simp [← hmore]
  have hstart : State.lines { s with deferred := s.deferred ++ [none], declared := [[]] } =
      s.lines := by
    simp [State.lines]
  have hrun : tally g (code.lines ++ t.lines) = tally g s.lines + v.bind W +
      ∑ k ∈ Finset.Ico (s.deferred.length + 1) t.deferred.length, D k := by
    have hinside := h.tally_eq
    dsimp only at hinside
    rwa [hstart, List.length_append, List.length_singleton] at hinside
  dsimp only
  rw [tally_append, tally_perm g (State.lines_fill hempty s.declared), List.length_set,
    Finset.sum_eq_sum_Ico_succ_bot hlt, ← hg.hand s.deferred.length count hhand, tally_cons,
    tally_nil, add_zero, tally_append]
  rw [tally_append] at hrun
  calc _ = g (.plain (hand (.deferredBody s.deferred.length handler count))) +
        (tally g code.lines + tally g t.lines) := by abel
    _ = _ := by
      rw [hrun]
      abel

end Counts

theorem Writes.tallied {e : Leave} {v : Multiset NodeId} {c c' : Point} {l : List Line}
    (hg : Counts x g W D) (h : Writes x e v c l c')
    (hp : ∀ op ∈ c.pending, op.number? = none) : Tallied g W D v c l c' := by
  induction h with
  | nil => exact .quiet hp rfl rfl rfl
  | append h h' ih ih' =>
    exact (ih hp).append (ih' (ih hp).pending) h.deferred_prefix.length_le
      h'.deferred_prefix.length_le
  | text t => exact .quiet (Multiset.forall_mem_cons.mpr ⟨rfl, hp⟩) rfl rfl rfl
  | array _ _ => exact .quiet (Multiset.forall_mem_cons.mpr ⟨rfl, hp⟩) rfl rfl rfl
  | @evaluation _ s p source calls field maps op _ _ hop =>
    refine .quiet (Multiset.forall_mem_cons.mpr ⟨?_, hp⟩) rfl rfl rfl
    cases op with
    | deferredBody => cases hop
    | _ => rfl
  | temporaries t => exact .quiet hp rfl rfl rfl
  | @statement _ s p st hst =>
    refine .quiet (fun op hop => hp op (Multiset.mem_add.mpr (.inr hop))) ?_ rfl rfl
    refine hg.tally_plain (Statement.isField_of_isPlain hst) fun op hop => hp op ?_
    exact Multiset.mem_add.mpr (.inl (Multiset.mem_coe.mpr hop))
  | inner t => exact .quiet hp (hg.tally_bare (by simp [Line.isBare])) rfl rfl
  | leave => exact .quiet hp (hg.tally_plain rfl (by simp [Statement.operands])) rfl rfl
  | scriptlet _ _ => exact .quiet hp (hg.tally_codeLines _ _) rfl rfl
  | @declaration _ s p mark code =>
    refine .quiet hp rfl ?_ rfl
    unfold State.lines
    simp only [Code.lines_append, tally_append, hg.tally_codeLines, add_zero]
  | declare _ => exact .quiet hp (hg.tally_plain rfl (by simp [Statement.operands])) rfl rfl
  | sync _ => exact .quiet hp (hg.tally_plain rfl (by simp [Statement.operands])) rfl rfl
  | @block _ _ c c' l head clauses _ _ _ ih ihclauses =>
    have hrun := ih hp
    have hbehind : tally g (clauses.flatMap (fun clause => .turns clause.1 :: clause.2) ++
        [.close]) = 0 := by
      rw [tally_append, hg.tally_close,
        add_zero, tally, Multiset.coe_eq_zero, List.flatMap_assoc, List.flatMap_eq_nil_iff]
      intro clause hclause
      have hzero := (ihclauses clause hclause hrun.pending).zero_of_still
      rw [tally, Multiset.coe_eq_zero] at hzero
      rw [List.flatMap_cons, hzero, hg.bare _ rfl]
      rfl
    simpa using hrun.around [.block head] _ (hg.tally_block head) hbehind
  | @frame _ _ s s' p p' l head _ ih =>
    have hrun := (ih hp).around [.block head] [.close] (hg.tally_block head) hg.tally_close
    exact ⟨hrun.pending, hrun.tally_eq⟩
  | @loop _ _ _ s s' p p' c before l behind head again tail hbefore h _ ih ih' ihbehind =>
    have hfirst := ih hp
    have hzero : tally g (.closes tail :: behind ++ [.close]) = 0 := by
      rw [tally_append, tally_cons, hg.bare _ rfl, (ihbehind c hfirst.pending).zero_of_still,
        hg.tally_close]
      rfl
    have hsecond := (ih' hfirst.pending).around [.block again] _ (hg.tally_block again) hzero
    have hall := (hfirst.append hsecond hbefore.deferred_prefix.length_le
      h.deferred_prefix.length_le).around [.block head] [] (hg.tally_block head) rfl
    refine ⟨hall.pending, Eq.trans ?_ hall.tally_eq⟩
    simp only [List.cons_append, List.append_assoc, List.nil_append]
    rfl
  | pool name => exact .quiet hp rfl rfl rfl
  | reuse _ => exact .quiet hp (hg.tally_plain rfl (by simp [Statement.operands])) rfl rfl
  | @action _ _ _ s s₁ p c c' l l' id data handler saved pool _ _ hsaves h _ h' ih ih' =>
    have hle := h.deferred_prefix.length_le
    rw [hsaves.eq_declared] at ih hle
    have hfirst := ih hp
    have hacquire : tally g [.plain (.acquire data.tag.handlerClass handler pool)] = 0 :=
      hg.tally_plain rfl (by simp [Statement.operands])
    have hsecond := (ih' hfirst.pending).around _ [] hacquire rfl
    have hrun := (hfirst.append hsecond hle h'.deferred_prefix.length_le).around
      (saveLines data.nestingLevel saved) (restoreLines data.nestingLevel saved)
      (hg.tally_plains _ _ fun _ _ => ⟨rfl, rfl⟩) (hg.tally_plains _ _ fun _ _ => ⟨rfl, rfl⟩)
    rw [List.append_nil, List.singleton_append] at hrun
    exact ⟨hrun.pending, hrun.tally_eq⟩
  | split parent count hid _ ih => exact hg.tallied_split parent count hid (ih (by simp)) hp
  | defers count hhand _ hinner ih =>
    exact hg.tallied_defers count hhand hinner.deferred_prefix (ih (by simp)) hp

section

variable {package name : String} {body : Code} {s : State}

theorem tally_classLines (hg : ∀ line : Line, line.isBare = true → g line = []) :
    tally g (classLines x package name body s) =
      tally g (ownMembers s) + tally g (body.lines ++ s.lines) := by
  have hmarked : ∀ l, tally g (marked l) = tally g l := fun l => by
    rw [tally, tally, flatMap_marked hg]
  have hperm := tally_perm g (perm_marked_classLines x package name body s)
  rwa [hmarked, hmarked, tally_append] at hperm

-- A class starts with nothing collected.
theorem Writes.tally_lines {e : Leave} {v : Multiset NodeId} (hg : Counts x g W D)
    (h : Writes x e v ⟨{}, 0⟩ body.lines ⟨s, 0⟩) :
    tally g (body.lines ++ s.lines) = v.bind W + ∑ k ∈ Finset.range s.deferred.length, D k := by
  have hrun : tally g (body.lines ++ s.lines) =
      tally g (State.lines {}) + v.bind W + ∑ k ∈ Finset.Ico 0 s.deferred.length, D k :=
    (h.tallied hg (by simp)).tally_eq
  rwa [show State.lines {} = [] from rfl, tally_nil, zero_add, ← Finset.range_eq_Ico] at hrun

theorem Writes.tally_classLines {e : Leave} {v : Multiset NodeId} (package name : String)
    (hg : Counts x g W D)
    (h : Writes x e v ⟨{}, 0⟩ body.lines ⟨s, 0⟩) :
    tally g (classLines x package name body s) =
      tally g (ownMembers s) + v.bind W + ∑ k ∈ Finset.range s.deferred.length, D k := by
  rw [ClassText.tally_classLines hg.bare, h.tally_lines hg, add_assoc]

theorem Writes.perm_ownMembers {e : Leave} {v : Multiset NodeId}
    (h : Writes x e v ⟨{}, 0⟩ body.lines ⟨s, 0⟩)
    (hg : ∀ line : Line, line.isOwn = false → g line = []) :
    ((classLines x package name body s).flatMap g).Perm ((ownMembers s).flatMap g) := by
  have hall := h.tally_classLines package name (.of_isOwn hg)
  rw [Multiset.bind_zero, Finset.sum_const_zero, add_zero, add_zero] at hall
  exact Multiset.coe_eq_coe.mp hall

end

end PageCompiler.ClassText
