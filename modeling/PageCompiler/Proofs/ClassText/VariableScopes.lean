import PageCompiler.Proofs.ClassText.Members

-- The generator keeps account of blocks of its own, which are fewer than those it opens; still a
-- name is declared there just when it is in sight. It knows nothing of the blocks of the page's own
-- code, which may end what was declared in them.
namespace PageCompiler

namespace ClassText

-- What code does to the blocks around it.
inductive Move where
  | opens
  | closes
  deriving DecidableEq, Repr

-- The variables that lines have declared in each block around a statement, innermost first.
abbrev Blocks := List (List String)

namespace Blocks

def sees (b : Blocks) (name : String) : Bool := b.any fun block => block.contains name

-- A name that is in sight cannot be declared again.
def declare (b : Blocks) (name : String) : Option Blocks :=
  if b.sees name then none
  else
    match b with
    | [] => none
    | block :: rest => some ((name :: block) :: rest)

def move : Blocks → Move → Option Blocks
  | b, .opens => some ([] :: b)
  | [], .closes => none
  | _ :: rest, .closes => some rest

end Blocks

-- A block of the generator or of the page's own code, with the variables declared in it.
structure Block where
  byPage : Bool
  names : List String
  deriving DecidableEq, Repr

namespace Block

def declare (name : String) : List Block → List Block
  | [] => []
  | block :: rest => { block with names := name :: block.names } :: rest

def enter (k : List Block) : List Block := ⟨false, []⟩ :: k

-- The generator closes a block of its own.
def leave : List Block → Option (List Block)
  | ⟨false, _⟩ :: rest => some rest
  | _ => none

-- The page's own code closes one of its blocks, in which nothing has been declared.
def move : List Block → Move → Option (List Block)
  | k, .opens => some (⟨true, []⟩ :: k)
  | ⟨true, []⟩ :: rest, .closes => some rest
  | _, .closes => none

end Block

section

-- What a line of the page's own code does to blocks.
variable (moves : String → List Move)

-- The blocks behind a statement, if the variables it uses are in sight and those it declares are
-- not.
def Statement.blocks (b : Blocks) : Statement → Option Blocks
  | declare _ name => b.declare name
  | save (some _) copy name => if b.sees name then b.declare copy else none
  | save none copy name | restore name copy => if b.sees name && b.sees copy then some b else none
  | sync _ name => if b.sees name then some b else none
  | raw text => (moves text).foldlM Blocks.move b
  | _ => some b

def Line.blocks (b : Blocks) : Line → Option Blocks
  | plain st => st.blocks moves b
  | inner _ => some b
  | opens _ => b.move .opens
  | turns _ => b.move .closes >>= fun b => b.move .opens
  | closes _ => b.move .closes

def blocksAfter (b : Blocks) (lines : List Line) : Option Blocks :=
  lines.foldlM (Line.blocks moves) b

-- The statements of a method use variables where they are in sight, and declare none twice.
def WellScoped (lines : List Line) : Prop := (blocksAfter moves [[]] lines).isSome

instance (lines : List Line) : Decidable (WellScoped moves lines) :=
  inferInstanceAs (Decidable (_ = true))

-- The page's own code leaves the blocks of the generator as they are, and closes none of its own in
-- which a variable has been declared. It may leave blocks open from one scriptlet to the next.
def Statement.nesting (k : List Block) : Statement → Option (List Block)
  | declare _ name | save (some _) name _ => some (Block.declare name k)
  | raw text => (moves text).foldlM Block.move k
  | _ => some k

def Line.nesting (k : List Block) : Line → Option (List Block)
  | plain st => st.nesting moves k
  | inner _ => some k
  | opens _ => some (Block.enter k)
  | turns _ => (Block.leave k).map Block.enter
  | closes _ => Block.leave k

def nestingAfter (k : List Block) (lines : List Line) : Option (List Block) :=
  lines.foldlM (Line.nesting moves) k

def Undisturbed (lines : List Line) : Prop := (nestingAfter moves (Block.enter []) lines).isSome

instance (lines : List Line) : Decidable (Undisturbed moves lines) :=
  inferInstanceAs (Decidable (_ = true))

-- Code that opens blocks closes them again, and no others.
def depthAfter : Nat → List Move → Option Nat
  | depth, [] => some depth
  | depth, .opens :: rest => depthAfter (depth + 1) rest
  | 0, .closes :: _ => none
  | depth + 1, .closes :: rest => depthAfter depth rest

def isClosed (code : String) : Bool :=
  depthAfter 0 ((Text.linesOf code).flatMap fun line => moves (Text.trimmedEnd line)) == some 0

-- No scriptlet of a page leaves a block open or closes one that it has not opened.
def closesBlocks (t : Tree) : Bool :=
  t.preorder.all fun id =>
    match t.kind id with
    | .script .scriptlet _ => isClosed moves (t.scriptText id)
    | _ => true

end

-- A line that gets no handler and neither saves nor restores a variable.
def Line.isOrdinary : Line → Bool
  | plain (.acquire ..) | plain (.save ..) | plain (.restore ..) => false
  | _ => true

-- An action that gets its handler restores behind its own statements what it has saved in front of
-- them; nothing else is saved or restored.
inductive Restores (x : Context) : List Line → Prop
  | nil : Restores x []
  | append {l l' : List Line} (h : Restores x l) (h' : Restores x l') : Restores x (l ++ l')
  | line {line : Line} (h : line.isOrdinary = true) : Restores x [line]
  | action {l l' : List Line} {id : NodeId} {data : CustomAction} {handler : String}
      {saved : List (Option String × String)} {pool : Option String}
      (hid : Handles x id data handler) (hlevel : data.nestingLevel = 0 → saved = [])
      (h : Restores x l) (h' : Restores x l') :
      Restores x (saveLines data.nestingLevel saved ++
        (l ++ .plain (.acquire data.tag.handlerClass handler pool) :: l') ++
        restoreLines data.nestingLevel saved)

-- The statements of the methods that were split off, and of those of deferred bodies.
def State.bodies (s : State) : List (List Line) :=
  s.methods.map Code.lines ++ s.deferred.map fun code => (code.getD []).lines

-- Together with those of the service method.
def methodBodies (body : Code) (s : State) : List (List Line) := body.lines :: s.bodies

variable {x : Context} {moves : String → List Move}

-- What holds of every run in a method of its own holds of the methods that have been collected.
theorem Writes.forall_bodies {P : List Line → Prop} (hnil : P [])
    (hmethod : ∀ {v : Multiset NodeId} {s s' : State} {code : Code} (handler : String),
      s.declared = [[]] → Writes x .returnsTrue v ⟨s, 0⟩ code.lines ⟨s', 0⟩ →
        P (methodCode handler code).lines)
    (hdeferred : ∀ {v : Multiset NodeId} {s s' : State} {code : Code},
      s.declared = [[]] → Writes x .throws v ⟨s, 0⟩ code.lines ⟨s', 0⟩ → P code.lines)
    {e : Leave} {v : Multiset NodeId} {c c' : Point} {l : List Line}
    (h : Writes x e v c l c') (hc : ∀ lines ∈ c.state.bodies, P lines) :
    ∀ lines ∈ c'.state.bodies, P lines := by
  induction h with
  | append _ _ ih ih' => exact ih' (ih hc)
  | block _ _ _ _ _ ih _ => exact ih hc
  | frame _ _ ih => exact ih hc
  | loop _ _ _ _ _ _ ih ih' _ => exact ih' (ih hc)
  | action _ _ hsaves _ _ _ ih ih' =>
    rw [hsaves.eq_declared] at ih
    exact ih' (ih hc)
  | @split _ _ s s' p id data handler code parent count _ hcode ih =>
    have hdone := ih hc
    have hnew := hmethod handler rfl hcode
    simp only [State.bodies, List.map_append, List.map_singleton, List.forall_mem_append,
      List.forall_mem_singleton] at hdone ⊢
    exact ⟨⟨hdone.1, hnew⟩, hdone.2⟩
  | @defers _ _ s s' p owner nested hand handler code count _ _ hcode ih =>
    have hstart : ∀ lines ∈ State.bodies
        { s with deferred := s.deferred ++ [none], declared := [[]] }, P lines := by
      simp only [State.bodies, List.map_append, List.map_singleton, List.forall_mem_append,
        List.forall_mem_singleton] at hc ⊢
      exact ⟨hc.1, hc.2, hnil⟩
    have hdone := ih hstart
    have hnew := hdeferred rfl hcode
    simp only [State.bodies, List.forall_mem_append, List.forall_mem_map] at hdone ⊢
    refine ⟨hdone.1, fun code' hcode' => ?_⟩
    rcases List.mem_or_eq_of_mem_set hcode' with hold | rfl
    · exact hdone.2 code' hold
    · exact hnew
  | _ => exact hc

namespace Restores

theorem of_isOrdinary {l : List Line} (h : ∀ line ∈ l, line.isOrdinary = true) :
    Restores x l := by
  induction l with
  | nil => exact .nil
  | cons line l ih =>
    obtain ⟨hline, hl⟩ := List.forall_mem_cons.mp h
    exact .append (.line hline) (ih hl)

theorem flatMap {α : Type} {l : List α} {f : α → List Line} (h : ∀ a ∈ l, Restores x (f a)) :
    Restores x (l.flatMap f) := by
  induction l with
  | nil => exact .nil
  | cons a l ih =>
    obtain ⟨ha, hl⟩ := List.forall_mem_cons.mp h
    exact .append ha (ih hl)

theorem cons {line : Line} {l : List Line} (hline : line.isOrdinary = true) (h : Restores x l) :
    Restores x (line :: l) :=
  .append (.line hline) h

end Restores

theorem Statement.isOrdinary_of_isPlain {st : Statement} (h : st.isPlain = true) :
    (Line.plain st).isOrdinary = true := by
  cases st <;> first | rfl | cases h

theorem Writes.restores {e : Leave} {v : Multiset NodeId} {c c' : Point} {l : List Line}
    (h : Writes x e v c l c') : Restores x l := by
  induction h with
  | append _ _ ih ih' => exact .append ih ih'
  | statement hst => exact .line (Statement.isOrdinary_of_isPlain hst)
  | inner _ | leave | declare _ | sync _ | reuse _ => exact .line rfl
  | scriptlet _ _ =>
    rw [lines_codeLines]
    exact .of_isOrdinary (by simp [Line.isOrdinary])
  | block head clauses _ _ _ ih ihclauses =>
    have hclauses : Restores x (clauses.flatMap fun clause => .turns clause.1 :: clause.2) :=
      .flatMap fun clause hclause => .cons rfl (ihclauses clause hclause)
    exact .append (.append (.cons rfl ih) hclauses) (.line rfl)
  | frame _ _ ih => exact .append (.cons rfl ih) (.line rfl)
  | @loop _ _ _ _ _ _ _ c _ _ _ _ _ _ _ _ _ ih ih' ihbehind =>
    exact .append (.append (.append (.cons rfl ih) (.cons rfl ih')) (.cons rfl (ihbehind c)))
      (.line rfl)
  | action hid hlevel _ _ _ _ ih ih' => exact .action hid hlevel ih ih'
  | split _ _ _ _ _ => exact .of_isOrdinary (by simp [Line.close, Line.isOrdinary])
  | defers _ hhand _ _ _ =>
    cases hhand with
    | body | fragment => exact .line rfl
  | _ => exact .nil

-- What is in sight is what the generator takes as declared.
structure Mirrors (b : Blocks) (s : State) : Prop where
  flatten_eq : b.flatten = s.declared.flatten
  declared_ne_nil : s.declared ≠ []

namespace Mirrors

variable {b : Blocks} {s s' : State}

theorem sees_eq (h : Mirrors b s) (name : String) : b.sees name = s.isDeclared name := by
  have hmem : ∀ l : List (List String), (l.any fun block => block.contains name) = true ↔
      name ∈ l.flatten := by
    intro l
    simp
  rw [Bool.eq_iff_iff, Blocks.sees, State.isDeclared, hmem, hmem, h.flatten_eq]

-- A block in which nothing has been declared yet.
theorem opened (h : Mirrors b s) : Mirrors ([] :: b) s := ⟨h.flatten_eq, h.declared_ne_nil⟩

theorem push (h : Mirrors b s) : Mirrors ([] :: b) s.push := ⟨h.flatten_eq, by simp [State.push]⟩

theorem of_declared (h : Mirrors b s) (hs : s'.declared = s.declared) : Mirrors b s' :=
  ⟨hs ▸ h.flatten_eq, hs ▸ h.declared_ne_nil⟩

end Mirrors

-- Lines behind others go on where these have led.
theorem blocksAfter_append {b b' : Blocks} {l : List Line} (h : blocksAfter moves b l = some b')
    (l' : List Line) : blocksAfter moves b (l ++ l') = blocksAfter moves b' l' := by
  rw [blocksAfter, List.foldlM_append, ← blocksAfter, h]
  rfl

theorem blocksAfter_cons {b b' : Blocks} {line : Line} (h : line.blocks moves b = some b')
    (l : List Line) : blocksAfter moves b (line :: l) = blocksAfter moves b' l := by
  rw [blocksAfter, List.foldlM_cons, h]
  rfl

theorem blocksAfter_singleton (b : Blocks) (line : Line) :
    blocksAfter moves b [line] = line.blocks moves b :=
  bind_pure _

-- Lines in a block of their own.
theorem blocksAfter_block (b : Blocks) (head : String) (l : List Line) :
    blocksAfter moves b (.block head :: l) = blocksAfter moves ([] :: b) l :=
  blocksAfter_cons rfl l

theorem nestingAfter_append {k k' : List Block} {l l' : List Line} :
    nestingAfter moves k (l ++ l') = some k' ↔
      ∃ k₁, nestingAfter moves k l = some k₁ ∧ nestingAfter moves k₁ l' = some k' := by
  rw [nestingAfter, List.foldlM_append]
  exact Option.bind_eq_some_iff

theorem nestingAfter_cons {k k' : List Block} {line : Line} {l : List Line} :
    nestingAfter moves k (line :: l) = some k' ↔
      ∃ k₁, line.nesting moves k = some k₁ ∧ nestingAfter moves k₁ l = some k' := by
  rw [nestingAfter, List.foldlM_cons]
  exact Option.bind_eq_some_iff

theorem nestingAfter_singleton (k : List Block) (line : Line) :
    nestingAfter moves k [line] = line.nesting moves k :=
  bind_pure _

theorem nestingAfter_block (k : List Block) (head : String) (l : List Line) :
    nestingAfter moves k (.block head :: l) = nestingAfter moves (Block.enter k) l :=
  rfl

namespace Block

-- What is in sight.
abbrev seen (k : List Block) : Blocks := k.map names

-- What lies around the innermost block of the generator.
def around : List Block → Option (List Block)
  | [] => none
  | ⟨true, _⟩ :: rest => around rest
  | ⟨false, _⟩ :: rest => some rest

@[simp] theorem around_enter (k : List Block) : around (enter k) = some k := rfl

@[simp] theorem around_declare (name : String) (k : List Block) :
    around (declare name k) = around k := by
  cases k with
  | nil => rfl
  | cons block rest =>
    obtain ⟨byPage, names⟩ := block
    cases byPage <;> rfl

-- The generator comes back to where it has been.
theorem eq_of_leave {k k' k'' : List Block} (h : leave k' = some k'')
    (haround : around k' = some k) : k'' = k ∧ (seen k').move .closes = some (seen k) := by
  unfold leave at h
  split at h
  · cases h
    cases haround
    exact ⟨rfl, rfl⟩
  · cases h

-- A move of the page's own code does to the blocks what it does in the method, and changes neither
-- what is in sight nor the blocks of the generator.
theorem seen_move {k k' : List Block} {m : Move} (h : move k m = some k') :
    (seen k).move m = some (seen k') ∧ (seen k').flatten = (seen k).flatten ∧
      around k' = around k := by
  unfold move at h
  split at h
  · cases h
    exact ⟨rfl, rfl, rfl⟩
  · cases h
    exact ⟨rfl, rfl, rfl⟩
  · cases h

theorem seen_moves {k k' : List Block} {ms : List Move} (h : ms.foldlM move k = some k') :
    ms.foldlM Blocks.move (seen k) = some (seen k') ∧ (seen k').flatten = (seen k).flatten ∧
      around k' = around k := by
  induction ms generalizing k with
  | nil =>
    cases h
    exact ⟨rfl, rfl, rfl⟩
  | cons m ms ih =>
    rw [List.foldlM_cons] at h
    obtain ⟨k₁, hm, hms⟩ := Option.bind_eq_some_iff.mp h
    obtain ⟨hmove, hflatten, haround⟩ := seen_move hm
    obtain ⟨hmoves, hflatten', haround'⟩ := ih hms
    refine ⟨?_, hflatten'.trans hflatten, haround'.trans haround⟩
    rw [List.foldlM_cons, hmove]
    exact hmoves

end Block

theorem Mirrors.declare {k outer : List Block} {s : State} (h : Mirrors (Block.seen k) s)
    (hk : Block.around k = some outer) {name : String} (hname : s.isDeclared name = false) :
    (Block.seen k).declare name = some (Block.seen (Block.declare name k)) ∧
      Mirrors (Block.seen (Block.declare name k)) (s.declare name) := by
  cases k with
  | nil => cases hk
  | cons block rest =>
    obtain ⟨known, others, hdeclared⟩ := List.exists_cons_of_ne_nil h.declared_ne_nil
    have hflatten := h.flatten_eq
    rw [hdeclared] at hflatten
    refine ⟨?_, ?_, ?_⟩
    · unfold Blocks.declare
      rw [h.sees_eq, hname]
      rfl
    · rw [State.declare, hdeclared]
      exact congrArg (name :: ·) hflatten
    · rw [State.declare, hdeclared]
      simp

-- Lines keep to the account: where the page's own code disturbs nothing, they lead from blocks that
-- it mirrors to others, and the generator still stands in the block in which it stood.
def Keeps (moves : String → List Move) (s : State) (l : List Line) (s' : State) : Prop :=
  ∀ k k' outer, Mirrors (Block.seen k) s → Block.around k = some outer →
    nestingAfter moves k l = some k' →
    blocksAfter moves (Block.seen k) l = some (Block.seen k') ∧ Mirrors (Block.seen k') s' ∧
      Block.around k' = some outer

namespace Keeps

variable {s s₁ s₂ : State} {l l' : List Line}

-- Lines that leave everything as it is.
theorem still (hnesting : ∀ k, nestingAfter moves k l = some k)
    (h : ∀ b, Mirrors b s → blocksAfter moves b l = some b) (hs : s₁.declared = s.declared) :
    Keeps moves s l s₁ := by
  intro k k' outer hk houter hrun
  obtain rfl : k = k' := Option.some.inj ((hnesting k).symm.trans hrun)
  exact ⟨h _ hk, hk.of_declared hs, houter⟩

theorem append (h : Keeps moves s l s₁) (h' : Keeps moves s₁ l' s₂) :
    Keeps moves s (l ++ l') s₂ := by
  intro k k' outer hk houter hrun
  obtain ⟨k₁, hrun₁, hrun₂⟩ := nestingAfter_append.mp hrun
  obtain ⟨hl, hk₁, houter₁⟩ := h k k₁ outer hk houter hrun₁
  obtain ⟨hl', hk₂, houter₂⟩ := h' k₁ k' outer hk₁ houter₁ hrun₂
  exact ⟨(blocksAfter_append hl l').trans hl', hk₂, houter₂⟩

-- Lines inside a block, down to where it is closed.
theorem inside (h : Keeps moves s l s₁) {k k' : List Block} (hk : Mirrors ([] :: Block.seen k) s)
    (hrun : nestingAfter moves (Block.enter k) l = some k') :
    blocksAfter moves ([] :: Block.seen k) l = some (Block.seen k') ∧
      Mirrors (Block.seen k') s₁ ∧ Block.around k' = some k :=
  h (Block.enter k) k' k hk rfl hrun

-- The last of some blocks behind one another is closed; none of the others adds anything.
theorem clauses {clauses : List (String × List Line)} {k k' k'' : List Block}
    (hk : Mirrors (Block.seen k) s) (h : ∀ clause ∈ clauses, Keeps moves s clause.2 s)
    (haround : Block.around k' = some k)
    (hrun : nestingAfter moves k' (clauses.flatMap (fun clause => Line.turns clause.1 :: clause.2) ++
      [Line.close]) = some k'') :
    k'' = k ∧ blocksAfter moves (Block.seen k')
      (clauses.flatMap (fun clause => Line.turns clause.1 :: clause.2) ++ [Line.close]) =
        some (Block.seen k) := by
  induction clauses generalizing k' with
  | nil =>
    obtain ⟨rfl, hclose⟩ := Block.eq_of_leave ((nestingAfter_singleton ..).symm.trans hrun) haround
    exact ⟨rfl, (blocksAfter_singleton ..).trans hclose⟩
  | cons clause clauses ih =>
    obtain ⟨hclause, hrest⟩ := List.forall_mem_cons.mp h
    rw [List.flatMap_cons, List.cons_append, List.cons_append, List.append_assoc,
      nestingAfter_cons] at hrun
    obtain ⟨k₁, hturn, hrun⟩ := hrun
    obtain ⟨k₂, hleave, rfl⟩ := Option.map_eq_some_iff.mp hturn
    obtain ⟨rfl, hclose⟩ := Block.eq_of_leave hleave haround
    obtain ⟨k₃, hinside, hrun⟩ := nestingAfter_append.mp hrun
    obtain ⟨hl, -, haround'⟩ := hclause.inside hk.opened hinside
    obtain ⟨rfl, hend⟩ := ih hrest haround' hrun
    have hturns : Line.blocks moves (Block.seen k') (.turns clause.1) =
        some ([] :: Block.seen k'') := by
      rw [Line.blocks, hclose]
      rfl
    refine ⟨rfl, ?_⟩
    rw [List.flatMap_cons, List.cons_append, List.cons_append, blocksAfter_cons hturns,
      List.append_assoc, blocksAfter_append hl]
    exact hend

end Keeps

theorem Statement.blocks_of_isPlain {st : Statement} (h : st.isPlain = true) (b : Blocks) :
    st.blocks moves b = some b := by
  cases st <;> first | rfl | cases h

theorem Statement.nesting_of_isPlain {st : Statement} (h : st.isPlain = true) (k : List Block) :
    st.nesting moves k = some k := by
  cases st <;> first | rfl | cases h

theorem blocksAfter_raw (moves : String → List Move) (b : Blocks) (texts : List String) :
    blocksAfter moves b (texts.map fun text => .plain (.raw text)) =
      (texts.flatMap moves).foldlM Blocks.move b := by
  induction texts generalizing b with
  | nil => rfl
  | cons text texts ih =>
    rw [List.map_cons, blocksAfter, List.foldlM_cons, List.flatMap_cons, List.foldlM_append]
    exact bind_congr fun b => ih b

theorem nestingAfter_raw (moves : String → List Move) (k : List Block) (texts : List String) :
    nestingAfter moves k (texts.map fun text => .plain (.raw text)) =
      (texts.flatMap moves).foldlM Block.move k := by
  induction texts generalizing k with
  | nil => rfl
  | cons text texts ih =>
    rw [List.map_cons, nestingAfter, List.foldlM_cons, List.flatMap_cons, List.foldlM_append]
    exact bind_congr fun k => ih k

theorem keeps_raw (s : State) (texts : List String) :
    Keeps moves s (texts.map fun text => .plain (.raw text)) s := by
  intro k k' outer hk houter hrun
  rw [nestingAfter_raw] at hrun
  obtain ⟨hmoves, hflatten, haround⟩ := Block.seen_moves hrun
  exact ⟨(blocksAfter_raw ..).trans hmoves, ⟨hflatten.trans hk.flatten_eq, hk.declared_ne_nil⟩,
    haround.trans houter⟩

theorem State.isDeclared_declare {s : State} {name other : String} (h : s.isDeclared name = true) :
    (s.declare other).isDeclared name = true := by
  unfold isDeclared declare at *
  cases hdeclared : s.declared with
  | nil =>
    rw [hdeclared] at h
    cases h
  | cons block rest =>
    rw [hdeclared] at h
    simp only [List.any_cons, Bool.or_eq_true] at h ⊢
    refine h.imp_left fun hblock => ?_
    simpa using .inr (by simpa using hblock)

theorem State.isDeclared_declare_self {s : State} (h : s.declared ≠ []) (name : String) :
    (s.declare name).isDeclared name = true := by
  obtain ⟨block, rest, hdeclared⟩ := List.exists_cons_of_ne_nil h
  simp [isDeclared, declare, hdeclared]

namespace Saves

variable {depth : Nat} {s s' : State} {saved : List (Option String × String)}

theorem isDeclared (h : Saves depth s saved s') {name : String} (hname : s.isDeclared name = true) :
    s'.isDeclared name = true := by
  induction h with
  | nil => exact hname
  | again _ _ _ ih => exact ih hname
  | new _ _ _ ih => exact ih (State.isDeclared_declare hname)

-- The variables that are saved and their copies are declared.
theorem declared_of_mem (h : Saves depth s saved s') (hs : s.declared ≠ []) :
    ∀ entry ∈ saved, s'.isDeclared entry.2 = true ∧ s'.isDeclared (copyName depth entry.2) = true := by
  induction h with
  | nil => simp
  | again hname hcopy hrest ih =>
    exact List.forall_mem_cons.mpr ⟨⟨hrest.isDeclared hname, hrest.isDeclared hcopy⟩, ih hs⟩
  | @new s _ _ name _ hname hcopy hrest ih =>
    have hne : (s.declare (copyName depth name)).declared ≠ [] := by
      obtain ⟨block, rest, hdeclared⟩ := List.exists_cons_of_ne_nil hs
      simp [State.declare, hdeclared]
    refine List.forall_mem_cons.mpr ⟨⟨?_, ?_⟩, ih hne⟩
    · exact hrest.isDeclared (State.isDeclared_declare hname)
    · exact hrest.isDeclared (State.isDeclared_declare_self hs _)

theorem keeps (h : Saves depth s saved s') : Keeps moves s (saveLines depth saved) s' := by
  induction h with
  | nil => exact .still (fun _ => rfl) (fun _ _ => rfl) rfl
  | @again s _ name rest hname hcopy _ ih =>
    refine Keeps.append (l := [.plain (.save none (copyName depth name) name)]) ?_ ih
    refine .still (fun _ => rfl) (fun b hb => ?_) rfl
    simp [blocksAfter_singleton, Line.blocks, Statement.blocks, hb.sees_eq, hname, hcopy]
  | @new s _ typeName name rest hname hcopy _ ih =>
    refine Keeps.append (l := [.plain (.save (some typeName) (copyName depth name) name)]) ?_ ih
    intro k k' outer hk houter hrun
    obtain rfl : Block.declare (copyName depth name) k = k' := Option.some.inj hrun
    obtain ⟨hdeclare, hk'⟩ := hk.declare houter hcopy
    refine ⟨?_, hk', (Block.around_declare _ k).trans houter⟩
    simp [blocksAfter_singleton, Line.blocks, Statement.blocks, hk.sees_eq, hname, hdeclare]

end Saves

-- What has been declared stays so to the end of its block.
theorem Writes.isDeclared {e : Leave} {v : Multiset NodeId} {c c' : Point} {l : List Line}
    (h : Writes x e v c l c') {name : String} (hname : c.state.isDeclared name = true) :
    c'.state.isDeclared name = true := by
  have hsame : ∀ {s s' : State}, s'.declared = s.declared → s.isDeclared name = true →
      s'.isDeclared name = true := by
    intro s s' hs hname
    rwa [State.isDeclared, hs]
  induction h with
  | append _ _ ih ih' => exact ih' (ih hname)
  | declare _ => exact State.isDeclared_declare hname
  | block _ _ _ hdeclared _ _ _ => exact hsame hdeclared hname
  | frame _ h _ => exact hsame h.tail_declared hname
  | loop _ _ _ hbefore h _ _ _ _ => exact hsame (h.tail_declared.trans hbefore.tail_declared) hname
  | action _ _ hsaves _ _ _ ih ih' => exact ih' (ih (hsaves.isDeclared hname))
  | _ => exact hname

theorem keeps_restores {depth : Nat} {saved : List (Option String × String)} {s : State}
    (h : ∀ entry ∈ saved, s.isDeclared entry.2 = true ∧ s.isDeclared (copyName depth entry.2) = true) :
    Keeps moves s (restoreLines depth saved) s := by
  induction saved with
  | nil => exact .still (fun _ => rfl) (fun _ _ => rfl) rfl
  | cons entry saved ih =>
    obtain ⟨⟨hname, hcopy⟩, hrest⟩ := List.forall_mem_cons.mp h
    refine Keeps.append (l := [.plain (.restore entry.2 (copyName depth entry.2))]) ?_ (ih hrest)
    refine .still (fun _ => rfl) (fun b hb => ?_) rfl
    simp [blocksAfter_singleton, Line.blocks, Statement.blocks, hb.sees_eq, hname, hcopy]

theorem Writes.keeps {e : Leave} {v : Multiset NodeId} {c c' : Point} {l : List Line}
    (h : Writes x e v c l c') : Keeps moves c.state l c'.state := by
  induction h with
  | append _ _ ih ih' => exact ih.append ih'
  | statement hst =>
    refine .still (fun k => ?_) (fun b _ => ?_) rfl
    · rw [nestingAfter_singleton, Line.nesting, Statement.nesting_of_isPlain hst]
    · rw [blocksAfter_singleton, Line.blocks, Statement.blocks_of_isPlain hst]
  | @scriptlet _ c id _ _ _ =>
    have hraw : Keeps moves c.state _ c.state :=
      keeps_raw _ ((Text.linesOf (x.tree.scriptText id)).map Text.trimmedEnd)
    rw [List.map_map] at hraw
    rw [lines_codeLines]
    exact hraw
  | @declare _ s p typeName name hname =>
    intro k k' outer hk houter hrun
    obtain rfl : Block.declare name k = k' := Option.some.inj hrun
    obtain ⟨hdeclare, hk'⟩ := hk.declare houter hname
    refine ⟨?_, hk', (Block.around_declare _ k).trans houter⟩
    rw [blocksAfter_singleton, Line.blocks, Statement.blocks, hdeclare]
  | sync hname =>
    refine .still (fun _ => rfl) (fun b hb => ?_) rfl
    simp [blocksAfter_singleton, Line.blocks, Statement.blocks, hb.sees_eq, hname]
  | @block _ _ c c' l head clauses _ hdeclared _ ih ihclauses =>
    intro k k' outer hk houter hrun
    rw [List.append_assoc, List.cons_append, nestingAfter_block, nestingAfter_append] at hrun
    obtain ⟨k₁, hinside, hrun⟩ := hrun
    obtain ⟨hl, -, houter₁⟩ := ih.inside hk.opened hinside
    have hk' := hk.of_declared hdeclared
    obtain ⟨rfl, hend⟩ := Keeps.clauses hk' ihclauses houter₁ hrun
    refine ⟨?_, hk', houter⟩
    rw [List.append_assoc, List.cons_append, blocksAfter_block, blocksAfter_append hl]
    exact hend
  | @frame _ _ s s' p p' l head h ih =>
    intro k k' outer hk houter hrun
    rw [List.cons_append, nestingAfter_block, nestingAfter_append] at hrun
    obtain ⟨k₁, hinside, hrun⟩ := hrun
    obtain ⟨hl, -, houter₁⟩ := ih.inside hk.push hinside
    obtain ⟨rfl, hclose⟩ := Block.eq_of_leave ((nestingAfter_singleton ..).symm.trans hrun) houter₁
    refine ⟨?_, hk.of_declared h.tail_declared, houter⟩
    rw [List.cons_append, blocksAfter_block, blocksAfter_append hl]
    exact (blocksAfter_singleton ..).trans hclose
  | @loop _ _ _ s s' p p' c before l behind head again tail hbefore h _ ih ih' ihbehind =>
    intro k k' outer hk houter hrun
    simp only [List.append_assoc, List.cons_append] at hrun
    rw [nestingAfter_block] at hrun
    -- The loop is left with the blocks in front of it, and what follows stands in these.
    obtain ⟨k₁, hfront, hloop⟩ := nestingAfter_append.mp hrun
    obtain ⟨hl, hk₁, houter₁⟩ := ih.inside hk.push hfront
    rw [nestingAfter_block] at hloop
    obtain ⟨k₂, hinside, htail⟩ := nestingAfter_append.mp hloop
    obtain ⟨hl', -, houter₂⟩ := ih'.inside hk₁.opened hinside
    obtain ⟨k₃, hleave, hrest⟩ := nestingAfter_cons.mp htail
    obtain ⟨rfl, hclose⟩ := Block.eq_of_leave hleave houter₂
    obtain ⟨k₄, hback, hend⟩ := nestingAfter_append.mp hrest
    obtain ⟨hl'', -, houter₄⟩ := ihbehind c _ _ _ hk₁ houter₁ hback
    obtain ⟨rfl, hclose'⟩ := Block.eq_of_leave ((nestingAfter_singleton ..).symm.trans hend) houter₄
    refine ⟨?_, hk.of_declared (h.tail_declared.trans hbefore.tail_declared), houter⟩
    have hcloses : Line.blocks moves (Block.seen k₂) (.closes tail) = some (Block.seen k₃) := hclose
    simp only [List.append_assoc, List.cons_append]
    rw [blocksAfter_block, blocksAfter_append hl, blocksAfter_block, blocksAfter_append hl',
      blocksAfter_cons hcloses, blocksAfter_append hl'']
    exact (blocksAfter_singleton ..).trans hclose'
  | @action _ _ _ s s₁ p c c' l l' id data handler saved pool _ _ hsaves h _ h' ih ih' =>
    intro k k' outer hk
    have hacquire : Keeps moves c.state [.plain (.acquire data.tag.handlerClass handler pool)]
        c.state := .still (fun _ => rfl) (fun _ _ => rfl) rfl
    have hrestore : Keeps moves c'.state (restoreLines data.nestingLevel saved) c'.state := by
      refine keeps_restores fun entry hentry => ?_
      obtain ⟨hname, hcopy⟩ := hsaves.declared_of_mem hk.declared_ne_nil entry hentry
      exact ⟨h'.isDeclared (h.isDeclared hname), h'.isDeclared (h.isDeclared hcopy)⟩
    exact ((hsaves.keeps.append (ih.append (hacquire.append ih'))).append hrestore) k k' outer hk
  | split _ _ _ _ _ => exact .still (fun _ => rfl) (fun _ _ => rfl) rfl
  | defers _ hhand _ _ _ =>
    cases hhand with
    | body | fragment => exact .still (fun _ => rfl) (fun _ _ => rfl) rfl
  | _ => exact .still (fun _ => rfl) (fun _ _ => rfl) rfl

-- Lines that disturb nothing, wherever they stand, and leave the blocks around theirs as they are.
def Settled (moves : String → List Move) (l : List Line) : Prop :=
  ∀ block rest, ∃ names, nestingAfter moves (block :: rest) l = some (⟨block.byPage, names⟩ :: rest)

namespace Settled

variable {l l' : List Line}

theorem still (h : ∀ k, nestingAfter moves k l = some k) : Settled moves l :=
  fun block rest => ⟨block.names, h (block :: rest)⟩

theorem append (h : Settled moves l) (h' : Settled moves l') : Settled moves (l ++ l') := by
  intro block rest
  obtain ⟨names, hl⟩ := h block rest
  obtain ⟨names', hl'⟩ := h' ⟨block.byPage, names⟩ rest
  exact ⟨names', nestingAfter_append.mpr ⟨_, hl, hl'⟩⟩

theorem inside (h : Settled moves l) (k : List Block) :
    ∃ names, nestingAfter moves (Block.enter k) l = some (⟨false, names⟩ :: k) :=
  h ⟨false, []⟩ k

theorem clauses {clauses : List (String × List Line)}
    (h : ∀ clause ∈ clauses, Settled moves clause.2) (names : List String) (k : List Block) :
    nestingAfter moves (⟨false, names⟩ :: k) (clauses.flatMap
      (fun clause => Line.turns clause.1 :: clause.2) ++ [Line.close]) = some k := by
  induction clauses generalizing names with
  | nil => rfl
  | cons clause clauses ih =>
    obtain ⟨hclause, hrest⟩ := List.forall_mem_cons.mp h
    obtain ⟨names', hinside⟩ := hclause.inside k
    rw [List.flatMap_cons, List.cons_append, List.cons_append, List.append_assoc]
    exact nestingAfter_cons.mpr ⟨_, rfl, nestingAfter_append.mpr ⟨_, hinside, ih hrest names'⟩⟩

theorem saves (depth : Nat) (saved : List (Option String × String)) :
    Settled moves (saveLines depth saved) := by
  induction saved with
  | nil => exact .still fun _ => rfl
  | cons entry saved ih =>
    obtain ⟨newOf, name⟩ := entry
    refine append (l := [.plain (.save newOf (copyName depth name) name)]) (fun block rest => ?_) ih
    cases newOf with
    | none => exact ⟨block.names, rfl⟩
    | some typeName => exact ⟨copyName depth name :: block.names, rfl⟩

theorem restores (depth : Nat) (saved : List (Option String × String)) :
    Settled moves (restoreLines depth saved) := by
  induction saved with
  | nil => exact .still fun _ => rfl
  | cons entry saved ih =>
    exact append (l := [.plain (.restore entry.2 (copyName depth entry.2))]) (.still fun _ => rfl) ih

end Settled

theorem foldlM_move {n m : Nat} {ms : List Move} (h : depthAfter n ms = some m) (k : List Block) :
    ms.foldlM Block.move (List.replicate n ⟨true, []⟩ ++ k) =
      some (List.replicate m ⟨true, []⟩ ++ k) := by
  induction ms generalizing n with
  | nil =>
    cases h
    rfl
  | cons move ms ih =>
    cases move with
    | opens => exact ih (n := n + 1) h
    | closes =>
      cases n with
      | zero => cases h
      | succ n => exact ih h

theorem settled_scriptlet (hclosed : closesBlocks moves x.tree = true) {id : NodeId}
    {script : Script} (hid : id ∈ x.tree.preorder)
    (hk : x.tree.kind id = .script .scriptlet script) :
    Settled moves (codeLines (x.tree.mark id) (x.tree.scriptText id)).lines := by
  refine .still fun k => ?_
  have hdepth := List.all_eq_true.mp hclosed id hid
  simp only [hk, isClosed, beq_iff_eq] at hdepth
  have htexts := nestingAfter_raw moves k
    ((Text.linesOf (x.tree.scriptText id)).map Text.trimmedEnd)
  rw [List.map_map, List.flatMap_map] at htexts
  rw [lines_codeLines]
  exact htexts.trans (foldlM_move hdepth k)

theorem Writes.settled (hclosed : closesBlocks moves x.tree = true) {e : Leave}
    {v : Multiset NodeId} {c c' : Point} {l : List Line} (h : Writes x e v c l c') :
    Settled moves l := by
  induction h with
  | append _ _ ih ih' => exact ih.append ih'
  | statement hst =>
    refine .still fun k => ?_
    rw [nestingAfter_singleton, Line.nesting, Statement.nesting_of_isPlain hst]
  | scriptlet hid hk => exact settled_scriptlet hclosed hid hk
  | @declare _ _ _ _ name _ => exact fun block _ => ⟨name :: block.names, rfl⟩
  | @block _ _ _ _ l head clauses _ _ _ ih ihclauses =>
    refine .still fun k => ?_
    obtain ⟨names, hinside⟩ := ih.inside k
    rw [List.append_assoc, List.cons_append, nestingAfter_block, nestingAfter_append]
    exact ⟨_, hinside, Settled.clauses ihclauses names k⟩
  | frame _ _ ih =>
    refine .still fun k => ?_
    obtain ⟨names, hinside⟩ := ih.inside k
    rw [List.cons_append, nestingAfter_block, nestingAfter_append]
    exact ⟨_, hinside, rfl⟩
  | @loop _ _ _ _ _ _ _ c _ _ _ _ _ _ _ _ _ ih ih' ihbehind =>
    refine .still fun k => ?_
    obtain ⟨names, hfront⟩ := ih.inside k
    obtain ⟨names', hinside⟩ := ih'.inside (⟨false, names⟩ :: k)
    obtain ⟨names'', hback⟩ := ihbehind c ⟨false, names⟩ k
    simp only [List.append_assoc, List.cons_append, nestingAfter_block]
    exact nestingAfter_append.mpr ⟨_, hfront, nestingAfter_append.mpr ⟨_, hinside,
      nestingAfter_cons.mpr ⟨_, rfl, nestingAfter_append.mpr ⟨_, hback, rfl⟩⟩⟩⟩
  | @action _ _ _ _ _ _ _ _ l l' _ data handler saved pool _ _ _ _ _ _ ih ih' =>
    have hacquire : Settled moves [.plain (.acquire data.tag.handlerClass handler pool)] :=
      .still fun _ => rfl
    exact ((Settled.saves _ saved).append (ih.append (hacquire.append ih'))).append
      (Settled.restores _ saved)
  | defers _ hhand _ _ _ =>
    cases hhand with
    | body | fragment => exact .still fun _ => rfl
  | _ => exact .still fun _ => rfl

section

variable {v : Multiset NodeId} {s : State} {p : Multiset Operand} {c : Point}

-- A method starts with nothing declared.
theorem Writes.wellScoped {e : Leave} {l : List Line} (hs : s.declared = [[]])
    (h : Writes x e v ⟨s, p⟩ l c) (hl : Undisturbed moves l) : WellScoped moves l := by
  obtain ⟨k, hrun⟩ := Option.isSome_iff_exists.mp hl
  have hstart : Mirrors [[]] s := ⟨by rw [hs], by simp [hs]⟩
  obtain ⟨hblocks, -, -⟩ := h.keeps.inside (k := []) hstart hrun
  exact Option.isSome_of_mem hblocks

-- A method that was split off is a block with a line in front, and its writer at the start.
theorem lines_methodCode (handler : String) (code : Code) :
    (methodCode handler code).lines = .blank :: .opens (.method (methodName handler)) ::
      .code (Names.writer ++ " out = " ++ Names.context ++ ".getOut();") ::
        (code.lines ++ [.code "return false;", .close]) := by
  simp only [methodCode, Code.lines_append, Code.lines_cons, Code.lines_nil, Stretch.lines_plain,
    List.cons_append, List.nil_append, List.append_nil]

theorem Writes.wellScoped_methodCode {e : Leave} {code : Code} (handler : String)
    (hs : s.declared = [[]]) (h : Writes x e v ⟨s, p⟩ code.lines c)
    (hl : Undisturbed moves (methodCode handler code).lines) :
    WellScoped moves (methodCode handler code).lines := by
  have hstart : Mirrors [[], []] s := ⟨by rw [hs]; rfl, by simp [hs]⟩
  obtain ⟨k, hrun⟩ := Option.isSome_iff_exists.mp hl
  rw [lines_methodCode] at hrun
  obtain ⟨k₁, hinside, hend⟩ := nestingAfter_append.mp
    (show nestingAfter moves (Block.enter (Block.enter [])) _ = some k from hrun)
  obtain ⟨hblocks, -, houter⟩ := h.keeps.inside (k := Block.enter []) hstart hinside
  change blocksAfter moves [[], []] code.lines = _ at hblocks
  obtain ⟨-, hclose⟩ := Block.eq_of_leave
    (show Block.leave k₁ = some k from (nestingAfter_singleton ..).symm.trans hend) houter
  rw [WellScoped, lines_methodCode, blocksAfter_cons rfl, blocksAfter_cons rfl,
    blocksAfter_cons rfl]
  have hlines : blocksAfter moves [[], []] (code.lines ++ [.code "return false;", .close]) =
      some [[]] := by
    rw [blocksAfter_append hblocks, blocksAfter_cons rfl]
    exact (blocksAfter_singleton ..).trans hclose
  exact Option.isSome_of_mem hlines

end

end ClassText

open ClassText

-- Blocks as they are told by braces, in code without texts and comments.
def braces (text : String) : List Move :=
  text.toList.filterMap fun c =>
    if c = '\x7b' then some .opens else if c = '\x7d' then some .closes else none

end PageCompiler
