import PageCompiler.Proofs.ClassText.LinePlaces
import PageCompiler.Proofs.ClassText.Programs

namespace PageCompiler.ClassText

-- The indentation behind a line. There is none if the line closes a block and none is open.
def Line.after? (indent : Nat) : Line → Option Nat
  | plain _ | inner _ => some indent
  | opens _ => some (indent + 1)
  | turns _ => if indent = 0 then none else some indent
  | closes _ => if indent = 0 then none else some (indent - 1)

def indentAfter? (indent : Nat) (lines : List Line) : Option Nat :=
  lines.foldlM Line.after? indent

@[simp] theorem indentAfter?_nil (n : Nat) : indentAfter? n [] = some n := rfl

@[simp] theorem indentAfter?_cons (n : Nat) (line : Line) (l : List Line) :
    indentAfter? n (line :: l) = (line.after? n).bind fun m => indentAfter? m l :=
  List.foldlM_cons ..

@[simp] theorem indentAfter?_append (n : Nat) (l l' : List Line) :
    indentAfter? n (l ++ l') = (indentAfter? n l).bind fun m => indentAfter? m l' :=
  List.foldlM_append ..

theorem Line.after_eq {n m : Nat} {line : Line} (h : line.after? n = some m) :
    line.after n = m := by
  cases line with
  | plain | inner | opens => exact Option.some.inj h
  | turns =>
    obtain ⟨hopen, heq⟩ := Option.ite_none_left_eq_some.mp h
    rw [Line.after, ← Option.some.inj heq]
    omega
  | closes => exact Option.some.inj (Option.ite_none_left_eq_some.mp h).2

-- Where no line closes too much, this is how lines are indented.
theorem snd_renderLines {n m : Nat} {lines : List Line} (h : indentAfter? n lines = some m) :
    (renderLines n lines).2 = m := by
  induction lines generalizing n with
  | nil => exact Option.some.inj h
  | cons line lines ih =>
    rw [indentAfter?_cons] at h
    obtain ⟨k, hk, h⟩ := Option.bind_eq_some_iff.mp h
    rw [renderLines, Line.after_eq hk]
    exact ih h

def serviceHead : String :=
  "public void pageService(final jakarta.servlet.http.HttpServletRequest request, " ++
    "final jakarta.servlet.http.HttpServletResponse response) " ++
    "throws java.io.IOException, jakarta.servlet.ServletException"

-- A method that may be left early, and how.
inductive Begins : Head → Leave → Prop
  | service : Begins (.code serviceHead) .returns
  | split (name : String) : Begins (.method name) .returnsTrue
  | deferred (number : Nat) : Begins (.deferred number) .throws

-- A block in which a method is left, and what is done in it before that.
inductive Asks : Head → List Line → Prop
  | call (name parent count : String) : Asks (.call name parent count) []
  | endTag (handler : String) :
      Asks (.code ("if (" ++ handler ++ ".doEndTag() == " ++ Names.tag ++ ".SKIP_PAGE)")) []
  | forward (page : Operand) (params : List Operand) :
      Asks (.code "if (true)") [.plain (.forwardPage page params)]

-- What the heads of such blocks end with, and that of the service method.
def markedTails : List String := [".SKIP_PAGE)", "if (true)", "ServletException"]

-- Any other head.
def IsCommon (head : String) : Prop := ∀ tail ∈ markedTails, ¬tail.toList <:+ head.toList

instance (head : String) : Decidable (IsCommon head) :=
  inferInstanceAs (Decidable (∀ _ ∈ _, _))

-- A literal is decided by its characters, which the kernel takes apart faster than its bytes.
theorem isCommon_ofList {chars : List Char} (h : ∀ tail ∈ markedTails, ¬tail.toList <:+ chars) :
    IsCommon (String.ofList chars) := by
  intro tail htail
  rw [String.toList_ofList]
  exact h tail htail

-- Nothing but the end of a head matters when that is long enough.
theorem isCommon_append (first : String) {last : String}
    (h : ∀ tail ∈ markedTails, ¬tail.toList <:+ last.toList ∧ ¬last.toList <:+ tail.toList) :
    IsCommon (first ++ last) := by
  intro tail htail hsuffix
  rw [String.toList_append] at hsuffix
  rcases List.suffix_or_suffix_of_suffix hsuffix (List.suffix_append ..) with hlast | hlast
  · exact (h tail htail).1 hlast
  · exact (h tail htail).2 hlast

-- A line that opens and closes nothing, leaves no method, and forwards to no page.
def Line.isStraight : Line → Bool
  | plain (.leave _) | plain (.forwardPage ..) => false
  | plain _ | inner _ => true
  | _ => false

-- Lines that are all of this kind.
def Straight (lines : List Line) : Prop := ∀ line ∈ lines, line.isStraight = true

-- The lines of a method that is left in some way, or lines outside of all methods. The flag says
-- that they stand in a block, where others may be between them that turn to its next clause.
inductive Skeleton : Option Leave → Bool → List Line → Prop
  | nil {e : Option Leave} {b : Bool} : Skeleton e b []
  | append {e : Option Leave} {b : Bool} {l l' : List Line} (h : Skeleton e b l)
      (h' : Skeleton e b l') : Skeleton e b (l ++ l')
  | line {e : Option Leave} {b : Bool} (line : Line) (h : line.isStraight = true) :
      Skeleton e b [line]
  | turn {e : Option Leave} (head : String) : Skeleton e true [.turns head]
  | block {e : Option Leave} {b : Bool} (head tail : String) {l : List Line}
      (hhead : IsCommon head) (h : Skeleton e true l) :
      Skeleton e b (.block head :: l ++ [.closes tail])
  | exit {e : Leave} {b : Bool} {head : Head} {before : List Line} (h : Asks head before) :
      Skeleton (some e) b (.opens head :: before ++ [.plain (.leave e), .close])
  | method {e : Leave} {b : Bool} {head : Head} (tail : String) {l : List Line}
      (hhead : Begins head e) (h : Skeleton (some e) true l) :
      Skeleton none b (.opens head :: l ++ [.closes tail])

namespace Skeleton

variable {e : Option Leave} {b : Bool} {l l' : List Line}

theorem cons (line : Line) (hline : line.isStraight = true) (h : Skeleton e b l) :
    Skeleton e b (line :: l) :=
  append (.line line hline) h

theorem of_straight (h : Straight l) : Skeleton e b l := by
  induction l with
  | nil => exact nil
  | cons line l ih =>
    obtain ⟨hline, hl⟩ := List.forall_mem_cons.mp h
    exact cons line hline (ih hl)

theorem flatten {parts : List (List Line)} (h : ∀ l ∈ parts, Skeleton e b l) :
    Skeleton e b parts.flatten := by
  induction parts with
  | nil => exact nil
  | cons l parts ih =>
    obtain ⟨hl, hparts⟩ := List.forall_mem_cons.mp h
    exact append hl (ih hparts)

theorem code (t : String) : Skeleton e b [.code t] := .line _ rfl

-- Lines can stand in a block.
theorem inside (h : Skeleton e b l) : Skeleton e true l := by
  induction h with
  | nil => exact nil
  | append _ _ ih ih' => exact append ih ih'
  | line l h => exact line l h
  | turn head => exact turn head
  | block head tail hhead h => exact block head tail hhead h
  | exit h => exact exit h
  | method tail hhead h => exact method tail hhead h

-- Behind lines the indentation is as in front of them; in a block there is some.
theorem indentAfter?_eq (h : Skeleton e b l) (n : Nat) :
    indentAfter? (n + b.toNat) l = some (n + b.toNat) := by
  induction h generalizing n with
  | nil => rfl
  | append _ _ ih ih' => rw [indentAfter?_append, ih, Option.bind_some, ih']
  | line line h =>
    rw [indentAfter?_cons]
    cases line with
    | plain | inner => rfl
    | opens | turns | closes => cases h
  | turn => rfl
  | @block _ b head tail l _ _ ih =>
    have hinside := ih (n + b.toNat)
    simp only [Bool.toNat_true] at hinside
    simp [Line.block, Line.after?, hinside]
  | exit h => cases h <;> simp [Line.after?, Line.close]
  | @method _ b head tail l _ _ ih =>
    have hinside := ih (n + b.toNat)
    simp only [Bool.toNat_true] at hinside
    simp [Line.after?, hinside]

theorem indentAfter?_self (h : Skeleton e false l) (n : Nat) : indentAfter? n l = some n :=
  h.indentAfter?_eq n

end Skeleton

theorem Straight.skeleton {e : Option Leave} {b : Bool} {lines : List Line}
    (h : Straight lines) : Skeleton e b lines := .of_straight h

-- Lines that leave their method in one way: so they do in each block that asks for it, as the last
-- thing that is done there, and nowhere else.
structure LeavesBy (e : Leave) (lines : List Line) : Prop where
  asked : ∀ front head rest, lines = front ++ .opens head :: rest →
    (∃ text, head = .code text ∧ IsCommon text) ∨
      ∃ before behind, Asks head before ∧ rest = before ++ .plain (.leave e) :: .close :: behind
  only : ∀ front e' rest, lines = front ++ .plain (.leave e') :: rest →
    e' = e ∧ ∃ front' head before, Asks head before ∧ front = front' ++ .opens head :: before

namespace LeavesBy

variable {e : Leave} {l l' : List Line}

-- A line of two parts stands in one of them.
theorem split_append {front rest : List Line} {line : Line}
    (h : l ++ l' = front ++ line :: rest) :
    (∃ rest', l = front ++ line :: rest' ∧ rest = rest' ++ l') ∨
      ∃ front', l' = front' ++ line :: rest ∧ front = l ++ front' := by
  rcases List.append_eq_append_iff.mp h with ⟨front', rfl, hl'⟩ | ⟨rest', rfl, hrest⟩
  · exact .inr ⟨front', hl', rfl⟩
  · cases rest' with
    | nil => exact .inr ⟨[], hrest.symm, by simp⟩
    | cons first rest' =>
      obtain ⟨rfl, rfl⟩ := List.cons.inj hrest
      exact .inl ⟨rest', rfl, rfl⟩

theorem append (h : LeavesBy e l) (h' : LeavesBy e l') : LeavesBy e (l ++ l') where
  asked front head rest hl := by
    rcases split_append hl with ⟨rest', hfirst, rfl⟩ | ⟨front', hsecond, rfl⟩
    · refine (h.asked front head rest' hfirst).imp_right ?_
      rintro ⟨before, behind, hasks, rfl⟩
      exact ⟨before, behind ++ l', hasks, by simp⟩
    · exact h'.asked front' head rest hsecond
  only front e' rest hl := by
    rcases split_append hl with ⟨rest', hfirst, rfl⟩ | ⟨front', hsecond, rfl⟩
    · exact h.only front e' rest' hfirst
    · obtain ⟨heq, front'', head, before, hasks, rfl⟩ := h'.only front' e' rest hsecond
      exact ⟨heq, l ++ front'', head, before, hasks, by simp⟩

theorem nil : LeavesBy e [] where
  asked front head rest hl := by simp at hl
  only front e' rest hl := by simp at hl

theorem singleton {line : Line}
    (hopens : ∀ head, line = .opens head → ∃ text, head = .code text ∧ IsCommon text)
    (hleave : ∀ e', line ≠ .plain (.leave e')) : LeavesBy e [line] where
  asked front head rest hl := by
    cases front with
    | nil => exact .inl (hopens head (List.cons.inj hl).1)
    | cons first front => exact absurd (List.cons.inj hl).2 (by simp)
  only front e' rest hl := by
    cases front with
    | nil => exact absurd (List.cons.inj hl).1 (hleave e')
    | cons first front => exact absurd (List.cons.inj hl).2 (by simp)

theorem exit {head : Head} {before : List Line} (h : Asks head before) :
    LeavesBy e (Line.opens head :: before ++ [Line.plain (.leave e), Line.close]) where
  asked front head' rest hl := by
    cases front with
    | nil =>
      obtain ⟨hhead, rfl⟩ := List.cons.inj hl
      cases hhead
      exact .inr ⟨before, [], h, rfl⟩
    | cons line front =>
      have hinside :
          before ++ [Line.plain (.leave e), Line.close] = front ++ Line.opens head' :: rest :=
        (List.cons.inj hl).2
      have hmem : Line.opens head' ∈ before ++ [Line.plain (.leave e), Line.close] := by
        rw [hinside]
        simp
      cases h <;> simp [Line.close] at hmem
  only front e' rest hl := by
    cases front with
    | nil => cases (List.cons.inj hl).1
    | cons line front =>
      obtain ⟨rfl, hinside⟩ := List.cons.inj hl
      rcases split_append hinside with ⟨rest', hbefore, -⟩ | ⟨front', hlast, rfl⟩
      · have hmem : Line.plain (.leave e') ∈ before := by
          rw [hbefore]
          simp
        cases h <;> simp at hmem
      · cases front' with
        | nil =>
          cases hlast
          exact ⟨rfl, [], head, before, h, by simp⟩
        | cons first front' =>
          cases front' with
          | nil => cases hlast
          | cons second front' => simp at hlast

end LeavesBy

theorem Skeleton.leavesBy {e : Leave} {b : Bool} {l : List Line}
    (h : Skeleton (some e) b l) : LeavesBy e l := by
  generalize ho : some e = o at h
  induction h with
  | nil => exact .nil
  | append _ _ ih ih' => exact .append (ih ho) (ih' ho)
  | line line h =>
    refine .singleton (fun head heq => ?_) fun e' heq => ?_
    · rw [heq] at h
      cases h
    · rw [heq] at h
      cases h
  | turn head => exact .singleton (fun _ h => nomatch h) fun _ h => nomatch h
  | block head tail hhead _ ih =>
    refine .append (.append (l := [_]) (.singleton (fun head heq => ?_) fun _ h => nomatch h)
      (ih ho)) (.singleton (fun _ h => nomatch h) fun _ h => nomatch h)
    cases heq
    exact ⟨_, rfl, hhead⟩
  | exit h =>
    cases ho
    exact .exit h
  | method => cases ho

-- Lines behind which no block is open, from inside of some blocks, the innermost first, with the
-- way in which the method around each is left.
inductive Closing : List (Option Leave) → List Line → Prop
  | done : Closing [] []
  | lines {es : List (Option Leave)} {l rest : List Line} (h : Skeleton (es.head?.getD none) false l)
      (hrest : Closing es rest) : Closing es (l ++ rest)
  | turn {e : Option Leave} {es : List (Option Leave)} (head : String) {rest : List Line}
      (hrest : Closing (e :: es) rest) : Closing (e :: es) (.turns head :: rest)
  | block {es : List (Option Leave)} {head : String} {rest : List Line} (hhead : IsCommon head)
      (hrest : Closing (es.head?.getD none :: es) rest) : Closing es (.block head :: rest)
  | method {e : Leave} {es : List (Option Leave)} {head : Head} {rest : List Line}
      (hhead : Begins head e) (hrest : Closing (some e :: none :: es) rest) :
      Closing (none :: es) (.opens head :: rest)
  | close {e : Option Leave} {es : List (Option Leave)} (tail : String) {rest : List Line}
      (hrest : Closing es rest) : Closing (e :: es) (.closes tail :: rest)

namespace Closing

variable {e : Option Leave} {es : List (Option Leave)} {l rest : List Line}

theorem line {line : Line} (h : line.isStraight = true) (hrest : Closing es rest) :
    Closing es (line :: rest) :=
  lines (.line line h) hrest

theorem code (t : String) (hrest : Closing es rest) : Closing es (.code t :: rest) :=
  line rfl hrest

-- The lines of each block up to its end, and what stands outside of all blocks.
def Splits : List (Option Leave) → List Line → Prop
  | [], l => Skeleton none false l
  | e :: es, l => ∃ inside tail rest, l = inside ++ .closes tail :: rest ∧
      Skeleton e true inside ∧ Splits es rest

theorem Splits.append (es : List (Option Leave)) {l rest : List Line}
    (h : Skeleton (es.head?.getD none) false l) (hrest : Splits es rest) :
    Splits es (l ++ rest) := by
  cases es with
  | nil => exact Skeleton.append h hrest
  | cons e es =>
    obtain ⟨inside, tail, rest, rfl, hinside, hrest⟩ := hrest
    exact ⟨l ++ inside, tail, rest, by simp, h.inside.append hinside, hrest⟩

theorem splits (h : Closing es l) : Splits es l := by
  induction h with
  | done => exact .nil
  | lines h _ ih => exact .append _ h ih
  | turn head _ ih =>
    obtain ⟨inside, tail, rest, rfl, hinside, hrest⟩ := ih
    exact ⟨.turns head :: inside, tail, rest, rfl, .append (.turn head) hinside, hrest⟩
  | block hhead _ ih =>
    obtain ⟨inside, tail, rest, rfl, hinside, hrest⟩ := ih
    simpa using Splits.append _ (.block _ tail hhead hinside) hrest
  | @method e es head rest hhead _ ih =>
    obtain ⟨inside, tail, rest, rfl, hinside, hrest⟩ := ih
    simpa using Splits.append (none :: es) (.method tail hhead hinside) hrest
  | close tail _ ih => exact ⟨[], tail, _, rfl, .nil, ih⟩

theorem skeleton (h : Closing [] l) : Skeleton none false l := h.splits

end Closing

-- The indentation behind a part of a class. Code has to stand at the indentation of its lines.
def Section.after? (indent : Nat) : Section → Option Nat
  | .own lines => indentAfter? indent lines
  | .code inner inside =>
    if inner = indent ∧ indentAfter? indent inside.lines = some indent then some indent else none

@[simp] theorem Section.after?_own (n : Nat) (lines : List Line) :
    (own lines).after? n = indentAfter? n lines := rfl

def sectionsAfter? (indent : Nat) (parts : List Section) : Option Nat :=
  parts.foldlM Section.after? indent

@[simp] theorem sectionsAfter?_nil (n : Nat) : sectionsAfter? n [] = some n := rfl

@[simp] theorem sectionsAfter?_cons (n : Nat) (part : Section) (parts : List Section) :
    sectionsAfter? n (part :: parts) = (part.after? n).bind fun m => sectionsAfter? m parts :=
  List.foldlM_cons ..

@[simp] theorem sectionsAfter?_append (n : Nat) (parts parts' : List Section) :
    sectionsAfter? n (parts ++ parts') =
      (sectionsAfter? n parts).bind fun m => sectionsAfter? m parts' :=
  List.foldlM_append ..

theorem Section.after?_lines {n m : Nat} {part : Section} (h : part.after? n = some m) :
    indentAfter? n part.lines = some m := by
  cases part with
  | own => exact h
  | code inner code =>
    obtain ⟨⟨-, hinside⟩, heq⟩ := Option.ite_none_right_eq_some.mp h
    rwa [heq] at hinside

-- The parts are printed like all their lines together.
theorem join_assembleFrom {n m : Nat} {parts : List Section} (h : sectionsAfter? n parts = some m)
    (line : Nat) : String.join (assembleFrom n line parts).1 =
      String.join (renderLines n (parts.flatMap Section.lines)).1 := by
  induction parts generalizing n line with
  | nil => rfl
  | cons part parts ih =>
    rw [sectionsAfter?_cons] at h
    obtain ⟨k, hk, hrest⟩ := Option.bind_eq_some_iff.mp h
    have hindent := snd_renderLines (Section.after?_lines hk)
    rw [List.flatMap_cons, renderLines_append, hindent, String.join_append]
    cases part with
    | own lines =>
      rw [Section.lines] at hindent ⊢
      simp only [assembleFrom, String.join_append, hindent, ih hrest]
    | code inner inside =>
      obtain ⟨⟨rfl, -⟩, hkn⟩ := Option.ite_none_right_eq_some.mp hk
      cases hkn
      simp only [assembleFrom, String.join_cons, ih hrest]
      rfl

-- Parts behind which the indentation is the one in front of them.
theorem sectionsAfter?_flatMap {α : Type} {n : Nat} {f : α → List Section} {l : List α}
    (h : ∀ a ∈ l, sectionsAfter? n (f a) = some n) : sectionsAfter? n (l.flatMap f) = some n := by
  induction l with
  | nil => rfl
  | cons a l ih =>
    obtain ⟨ha, hl⟩ := List.forall_mem_cons.mp h
    rw [List.flatMap_cons, sectionsAfter?_append, ha, Option.bind_some, ih hl]

theorem Skeleton.after? {e : Option Leave} {code : Code} (h : Skeleton e false code.lines)
    (n : Nat) : (Section.code n code).after? n = some n :=
  if_pos ⟨rfl, h.indentAfter?_self n⟩

-- What has been collected for the class: raw lines, methods that were split off, and deferred
-- bodies.
structure State.Formed (s : State) : Prop where
  declarations : Skeleton none false s.declarations.lines
  methods : ∀ code ∈ s.methods, ∃ name l, Code.lines code = splitLines name l ∧
    Skeleton (some .returnsTrue) false l
  deferred : ∀ code ∈ s.deferred, Skeleton (some .throws) false (code.getD []).lines

variable {x : Context} {package name : String} {body : Code} {s : State}

theorem Skeleton.under {e : Option Leave} {b : Bool} {l : List Line} {holds : Bool}
    (h : Skeleton e b l) : Skeleton e b (onlyIf holds l) := by
  unfold onlyIf
  split
  · exact h
  · exact .nil

-- The class is opened, and its fields follow.
theorem exists_headLines_eq (x : Context) (package name : String) (s : State) :
    ∃ before head fields, headLines x package name s = before ++ .block head :: fields ∧
      Straight before ∧ IsCommon head ∧ Straight fields := by
  have hhead : ∃ head, classHead x.settings name = .block head ∧ IsCommon head := by
    refine ⟨_, rfl, ?_⟩
    rw [← String.append_assoc]
    split
    · rw [String.append_empty]
      exact isCommon_append _ (by decide)
    · exact isCommon_append _ (by decide)
  obtain ⟨head, hhead, hcommon⟩ := hhead
  refine ⟨[Line.code ("package " ++ package ++ ";"), Line.blank] ++
    (allImports x.settings).map (fun i => Line.code ("import " ++ i ++ ";")) ++ [Line.blank], head,
    fieldLines s (allImports x.settings) x.checked.page.bindings.dependencies ++
      poolFields (poolNames s), ?_, ?_, hcommon, ?_⟩
  · simp only [headLines, hhead, List.flatten_cons, List.flatten_nil, List.append_nil,
      List.append_assoc, List.cons_append, List.nil_append]
  · simp only [Straight, List.forall_mem_append, List.forall_mem_cons, List.forall_mem_map]
    exact ⟨⟨⟨rfl, rfl, by simp⟩, fun _ _ => rfl⟩, rfl, by simp⟩
  · have hpools : Straight (poolFields (poolNames s)) := by
      unfold poolFields
      split
      · simp [Straight]
      · exact List.forall_mem_cons.mpr ⟨rfl, List.forall_mem_map.mpr fun _ _ => rfl⟩
    have hfields : Straight (fieldLines s (allImports x.settings)
        x.checked.page.bindings.dependencies) := by
      simp only [fieldLines, FunctionMaps.declarations, Straight, List.flatten_cons,
        List.flatten_nil, List.append_nil, List.forall_mem_append, List.forall_mem_cons,
        List.forall_mem_map]
      exact ⟨⟨rfl, rfl, rfl, by simp⟩, fun _ _ => rfl, fun _ _ => rfl⟩
    exact List.forall_mem_append.mpr ⟨hfields, hpools⟩

theorem skeleton_method {e : Option Leave} {b : Bool} {head : String} {l : List Line}
    (hhead : IsCommon head) (h : Straight l) : Skeleton e b (method head l) :=
  .cons _ rfl (.block _ _ hhead h.skeleton)

theorem skeleton_methodLines (pools : List String) {b : Bool} :
    Skeleton none b (methodLines x.settings pools) := by
  have hinfo : Skeleton none b (infoMethod x.settings.info) := by
    unfold infoMethod
    split
    · exact skeleton_method (isCommon_ofList (by decide)) (List.forall_mem_singleton.mpr rfl)
    · exact .nil
  refine .flatten ?_
  simp only [List.forall_mem_cons]
  exact ⟨skeleton_method (isCommon_ofList (by decide)) (List.forall_mem_singleton.mpr rfl),
    skeleton_method (isCommon_ofList (by decide)) (List.forall_mem_singleton.mpr rfl), hinfo,
    skeleton_method (isCommon_ofList (by decide)) (List.forall_mem_map.mpr fun _ _ => rfl),
    skeleton_method (isCommon_ofList (by decide)) (List.forall_mem_map.mpr fun _ _ => rfl), by simp⟩

theorem skeleton_errorLines {e : Option Leave} {b : Bool} :
    Skeleton e b errorLines :=
  .cons _ rfl (.block _ _ (isCommon_ofList (by decide)) (.code _))

theorem skeleton_declarationSections (h : Skeleton none false s.declarations.lines) :
    Skeleton none false ((declarationSections s.declarations).flatMap Section.lines) := by
  unfold declarationSections
  split
  · exact .nil
  · simpa [Section.lines] using Skeleton.cons .blank rfl h

theorem skeleton_splitLines {b : Bool} {method : String} {l : List Line}
    (h : Skeleton (some .returnsTrue) false l) : Skeleton none b (splitLines method l) := by
  have hmethod := fun t => Skeleton.method (b := b) "\x7d" (.split method) <|
    (Skeleton.code t).append <| h.inside.append (.code "return false;")
  simpa [splitLines, Line.close] using Skeleton.cons .blank rfl (hmethod _)

theorem State.Formed.skeleton_methods (h : s.Formed) :
    ∀ code ∈ s.methods, Skeleton none false (Code.lines code) := by
  intro code hcode
  obtain ⟨method, l, heq, hl⟩ := h.methods code hcode
  rw [heq]
  exact skeleton_splitLines hl

theorem skeleton_deferredSections {number : Nat} {code : Option Code}
    (h : Skeleton (some .throws) false (code.getD []).lines) :
    Skeleton none false ((deferredSections number code).flatMap Section.lines) := by
  have hmethod := fun t => Skeleton.method (b := false) "\x7d" (.deferred number) <|
    (Skeleton.code t).append <| h.inside.append (.code "return false;")
  simpa [deferredSections, Section.lines, Line.close] using
    Skeleton.cons .blank rfl (hmethod _)

theorem skeleton_caseLines (numbers : List Nat) :
    Skeleton none false (numbers.flatMap caseLines) := by
  rw [List.flatMap]
  exact .flatten (List.forall_mem_map.mpr fun _ _ =>
    .cons _ rfl (.cons _ rfl (.cons _ rfl .nil)))

section

variable {es : List (Option Leave)} {rest : List Line}

theorem closing_headLines (h : Closing [none] rest) :
    Closing [] (headLines x package name s ++ rest) := by
  obtain ⟨before, head, fields, heq, hbefore, hcommon, hfields⟩ :=
    exists_headLines_eq x package name s
  rw [heq, List.append_assoc]
  exact .lines hbefore.skeleton (.block hcommon (.lines hfields.skeleton h))

theorem closing_serviceStart (h : Closing (some .returns :: some .returns :: none :: es) rest) :
    Closing (none :: es) (serviceStart x ++ rest) := by
  simp only [serviceStart, List.flatten_cons, List.flatten_nil, List.append_nil, List.append_assoc,
    List.cons_append, List.nil_append]
  exact .line rfl <| .method .service <| .lines skeleton_errorLines.under <| .code _ <|
    .lines (Skeleton.code _).under <| .code _ <| .code _ <| .code _ <| .code _ <| .code _ <|
      .line rfl <| .block (isCommon_ofList (by decide)) <| .code _ <| .line rfl <| .code _ <|
        .code _ <| .lines (Skeleton.code _).under <| .code _ <|
          .lines (Skeleton.code _).under <| .line rfl h

theorem closing_serviceEnd (h : Closing (none :: es) rest) :
    Closing (some .returns :: some .returns :: none :: es) (serviceEnd ++ rest) :=
  .turn _ <| .block (isCommon_append _ (by decide)) <| .code _ <|
    .block (isCommon_ofList (by decide)) <| .block (isCommon_ofList (by decide)) <|
      .block (isCommon_ofList (by decide)) <| .code _ <| .turn _ <| .code _ <| .close _ <|
        .turn _ <| .close _ <| .close _ <| .block (isCommon_append _ (by decide)) <| .code _ <|
          .turn _ <| .code _ <| .close _ <| .close _ <| .turn _ <| .code _ <| .close _ <|
            .close _ h

theorem closing_helperStart (h : Closing (none :: none :: es) rest) :
    Closing (none :: es) (helperStart ++ rest) := by
  have hconstructor : ∀ first, IsCommon (first ++ Names.pushCount ++ ")") := fun first => by
    rw [String.append_assoc]
    exact isCommon_append first (by decide)
  exact .line rfl <| .block (isCommon_append _ (by decide)) <| .code _ <| .code _ <| .line rfl <|
    .block (hconstructor _) <| .code _ <| .code _ <| .code _ <| .close _ h

theorem closing_helperEnd (count : Nat) (h : Closing (none :: es) rest) :
    Closing (none :: none :: es) (helperEnd count ++ rest) := by
  simp only [helperEnd, List.flatten_cons, List.flatten_nil, List.append_nil, List.append_assoc,
    List.cons_append, List.nil_append]
  exact .line rfl <| .block (isCommon_append _ (by decide)) <| .code _ <|
    .block (isCommon_ofList (by decide)) <| .code _ <| .turn _ <| .code _ <| .close _ <|
      .block (isCommon_ofList (by decide)) <| .block (isCommon_ofList (by decide)) <|
        .lines (skeleton_caseLines _) <| .close _ <| .turn _ <|
          .block (by decide) <| .code _ <| .close _ <| .code _ <| .turn _ <|
            .block (isCommon_ofList (by decide)) <| .code _ <| .close _ <| .close _ <| .close _ <|
              .close _ h

theorem closing_helperSections {deferred : List (Option Code)}
    (hdeferred : ∀ code ∈ deferred, Skeleton (some .throws) false (code.getD []).lines)
    (h : Closing (none :: es) rest) :
    Closing (none :: es) ((helperSections deferred).flatMap Section.lines ++ rest) := by
  unfold helperSections
  split
  · exact h
  · simp only [List.cons_append, List.flatMap_cons, List.flatMap_append, List.flatMap_nil,
      Section.lines, List.append_nil, List.append_assoc]
    refine closing_helperStart (.lines ?_ (closing_helperEnd _ h))
    rw [List.flatMap_assoc, List.flatMap]
    exact .flatten (List.forall_mem_map.mpr fun entry hentry =>
      skeleton_deferredSections (hdeferred _ (List.of_mem_zip hentry).2))

end

-- All lines of a class are nested, and each of its methods is left in its own way.
theorem skeleton_classLines (hbody : Skeleton (some .returns) false body.lines) (hs : s.Formed) :
    Skeleton none false (classLines x package name body s) := by
  have hmethods : Skeleton none false ((s.methods.map (Section.code 1)).flatMap Section.lines) := by
    rw [List.flatMap_map, List.flatMap]
    exact .flatten (List.forall_mem_map.mpr hs.skeleton_methods)
  have hall : Closing [] (classLines x package name body s) := by
    simp only [classLines, sections, List.flatten_cons, List.flatten_nil, List.append_nil,
      List.cons_append, List.nil_append, List.flatMap_cons, List.flatMap_append, List.flatMap_nil,
      Section.lines]
    exact closing_headLines <| .lines (skeleton_declarationSections hs.declarations) <|
      .lines (skeleton_methodLines _) <| closing_serviceStart <| .lines hbody <|
        closing_serviceEnd <| .lines hmethods <|
          closing_helperSections hs.deferred <| .close _ .done
  exact hall.skeleton

theorem indentAfter?_headLines : indentAfter? 0 (headLines x package name s) = some 1 := by
  obtain ⟨before, head, fields, heq, hbefore, -, hfields⟩ := exists_headLines_eq x package name s
  simp [heq, (hbefore.skeleton (e := none)).indentAfter?_self 0,
    (hfields.skeleton (e := none)).indentAfter?_self 1, Line.block, Line.after?]

theorem indentAfter?_onlyIf {n : Nat} {lines : List Line} {holds : Bool}
    (h : indentAfter? n lines = some n) : indentAfter? n (onlyIf holds lines) = some n := by
  unfold onlyIf
  split
  · exact h
  · rfl

theorem indentAfter?_serviceStart : indentAfter? 1 (serviceStart x) = some 3 := by
  have herror : indentAfter? 2 errorLines = some 2 := rfl
  simp [serviceStart, contextLine, indentAfter?_onlyIf, herror, Line.after?, Line.block,
    Line.blank, Line.code]

theorem indentAfter?_serviceEnd : indentAfter? 3 serviceEnd = some 1 := rfl

theorem indentAfter?_helperEnd (count : Nat) : indentAfter? 2 (helperEnd count) = some 1 := by
  have hcases := (skeleton_caseLines (List.range count)).indentAfter?_self 5
  rw [helperEnd, List.flatten_cons, List.flatten_cons, indentAfter?_append]
  refine Option.bind_eq_some_iff.mpr ⟨5, rfl, ?_⟩
  rw [indentAfter?_append, hcases]
  rfl

theorem sectionsAfter?_deferredSections {number : Nat} {code : Option Code}
    (h : Skeleton (some .throws) false (code.getD []).lines) :
    sectionsAfter? 2 (deferredSections number code) = some 2 := by
  simp [deferredSections, h.after? 3, Line.after?, Line.blank, Line.code, Line.close]

theorem sectionsAfter?_helperSections {deferred : List (Option Code)}
    (h : ∀ code ∈ deferred, Skeleton (some .throws) false (code.getD []).lines) :
    sectionsAfter? 1 (helperSections deferred) = some 1 := by
  have hstart : indentAfter? 1 helperStart = some 2 := rfl
  unfold helperSections
  split
  · rfl
  · rw [List.cons_append, sectionsAfter?_cons, Section.after?_own, hstart, Option.bind_some,
      sectionsAfter?_append]
    refine Option.bind_eq_some_iff.mpr ⟨2, sectionsAfter?_flatMap fun entry hentry => ?_, ?_⟩
    · exact sectionsAfter?_deferredSections (h _ (List.of_mem_zip hentry).2)
    · simp [indentAfter?_helperEnd]

-- All code stands at the indentation of its lines, and no block is open at the end.
theorem sectionsAfter?_sections (hbody : Skeleton (some .returns) false body.lines)
    (hs : s.Formed) : sectionsAfter? 0 (sections x package name body s) = some 0 := by
  have hdeclarations : sectionsAfter? 1 (declarationSections s.declarations) = some 1 := by
    unfold declarationSections
    split
    · rfl
    · simp [hs.declarations.after? 1, Line.blank, Line.after?]
  have hmethods : sectionsAfter? 1 (s.methods.map (.code 1)) = some 1 :=
    List.map_eq_flatMap ▸ sectionsAfter?_flatMap fun code hcode => by
      simp [(hs.skeleton_methods code hcode).after? 1]
  have hsmall := (skeleton_methodLines (x := x) (poolNames s)).indentAfter?_self 1
  simp [sections, indentAfter?_headLines, hdeclarations, hsmall, indentAfter?_serviceStart,
    hbody.after? 3, indentAfter?_serviceEnd, hmethods, sectionsAfter?_helperSections hs.deferred,
    Line.close, Line.after?]

end PageCompiler.ClassText
