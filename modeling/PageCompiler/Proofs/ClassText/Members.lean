import PageCompiler.Proofs.ClassText.Generation
import PageCompiler.Proofs.ClassText.References
import Mathlib.Tactic.Abel

namespace PageCompiler

namespace ClassText

-- What a class may hold besides its fixed methods.
inductive Member where
  | functions (index : Nat)
  | array (index : Nat)
  | pool (name : String)
  | method (name : String)
  -- The method of a deferred body.
  | body (number : Nat)
  deriving DecidableEq, Repr

def Operand.refersTo : Operand → List Member
  | code _ => []
  | charArray index => [.array index]
  | evaluate _ _ functions | valueExpression _ _ functions | methodExpression _ _ _ functions =>
    functions.toList.map .functions
  | deferredBody number _ _ => [.body number]

def Statement.pools : Statement → List String
  | acquire _ _ pool => pool.toList
  | reuse pool _ | initPool pool | releasePool pool => [pool]
  | _ => []

def Statement.defines : Statement → List Member
  | declareFunctions index _ => [.functions index]
  | declareArray index _ => [.array index]
  | declarePool pool => [.pool pool]
  | _ => []

namespace Line

def operands : Line → List Operand
  | plain st => st.operands
  | _ => []

def refersTo : Line → List Member
  | plain st => st.operands.flatMap Operand.refersTo ++ st.pools.map .pool
  | opens (.call name _ _) => [.method name]
  | _ => []

def defines : Line → List Member
  | plain st => st.defines
  | opens (.method name) => [.method name]
  | opens (.deferred number) => [.body number]
  | _ => []

-- A line with nothing but text.
def isBare : Line → Bool
  | plain (.code _) | inner _ | opens (.code _) | turns _ | closes _ => true
  | _ => false

end Line

-- The expressions that are evaluated, each with the field of its functions.
def evaluations (lines : List Line) : List (String × Option Nat) :=
  (lines.flatMap Line.operands).filterMap Operand.evaluation?

def Section.lines : Section → List Line
  | .own lines => lines
  | .code _ inside => inside.lines

def classLines (x : Context) (package name : String) (body : Code) (s : State) : List Line :=
  (sections x package name body s).flatMap Section.lines

-- The fields of a class, and what happens to its pools.
def fieldMembers (s : State) : List Line :=
  s.functionMaps.declarations ++
    ((List.range s.charArrays.length).zip s.charArrays).map (fun (index, text) =>
      Line.plain (.declareArray index text)) ++
    (poolNames s).map fun pool => .plain (.declarePool pool)

def poolUses (s : State) : List Line :=
  (poolNames s).map (fun pool => .plain (.initPool pool)) ++
    (poolNames s).map fun pool => .plain (.releasePool pool)

-- The deferred bodies, each behind the head of its method, and the labels for them.
def helperMembers (deferred : List (Option Code)) : List Line :=
  (((List.range deferred.length).zip deferred).flatMap fun (number, code) =>
      .opens (.deferred number) :: (code.getD []).lines) ++
    (List.range deferred.length).map fun number => .plain (.caseLabel number)

-- The lines that are more than text.
def marked (lines : List Line) : List Line := lines.filter fun line => !line.isBare

@[simp] theorem marked_nil : marked [] = [] := rfl

@[simp] theorem marked_append (l l' : List Line) : marked (l ++ l') = marked l ++ marked l' :=
  List.filter_append ..

theorem marked_cons_of_isBare {line : Line} (h : line.isBare = true) (l : List Line) :
    marked (line :: l) = marked l := by
  rw [marked, List.filter_cons_of_neg (by simp [h])]
  rfl

@[simp] theorem marked_code (t : String) (l : List Line) : marked (.code t :: l) = marked l :=
  marked_cons_of_isBare rfl l

@[simp] theorem marked_blank (l : List Line) : marked (.blank :: l) = marked l :=
  marked_cons_of_isBare rfl l

@[simp] theorem marked_block (head : String) (l : List Line) :
    marked (.block head :: l) = marked l :=
  marked_cons_of_isBare rfl l

@[simp] theorem marked_inner (t : String) (l : List Line) : marked (.inner t :: l) = marked l :=
  marked_cons_of_isBare rfl l

@[simp] theorem marked_turns (head : String) (l : List Line) :
    marked (.turns head :: l) = marked l :=
  marked_cons_of_isBare rfl l

@[simp] theorem marked_close (l : List Line) : marked (.close :: l) = marked l :=
  marked_cons_of_isBare rfl l

@[simp] theorem marked_onlyIf (holds : Bool) (l : List Line) :
    marked (onlyIf holds l) = onlyIf holds (marked l) := by
  cases holds <;> rfl

theorem onlyIf_nil (holds : Bool) : onlyIf holds [] = [] := by cases holds <;> rfl

-- Only such lines count for what is nothing at the others.
theorem flatMap_marked {α : Type} {g : Line → List α}
    (hg : ∀ line : Line, line.isBare = true → g line = []) (l : List Line) :
    (marked l).flatMap g = l.flatMap g := by
  induction l with
  | nil => rfl
  | cons line l ih =>
    cases h : line.isBare with
    | true => rw [marked_cons_of_isBare h, ih, List.flatMap_cons, hg line h, List.nil_append]
    | false =>
      rw [marked, List.filter_cons_of_pos (by simp [h]), List.flatMap_cons, List.flatMap_cons,
        ← ih, marked]

theorem marked_headLines (x : Context) (package name : String) (s : State) :
    marked (headLines x package name s) = marked (fieldMembers s) := by
  have himports : ∀ imports : List String,
      marked (imports.map fun i => Line.code ("import " ++ i ++ ";")) = [] := by
    intro imports
    induction imports with
    | nil => rfl
    | cons i imports ih => rw [List.map_cons, marked_code, ih]
  have hpools : marked (poolFields (poolNames s)) =
      marked ((poolNames s).map fun pool => Line.plain (.declarePool pool)) := by
    unfold poolFields
    split
    · rename_i h
      rw [List.isEmpty_iff.mp h]
      rfl
    · rw [marked_blank]
  simp [headLines, fieldLines, fieldMembers, classHead, himports, hpools]

theorem marked_method (head : String) (lines : List Line) :
    marked (method head lines) = marked lines := by
  simp [method]

theorem marked_methodLines (settings : Settings) (s : State) :
    marked (methodLines settings (poolNames s)) = marked (poolUses s) := by
  have hinfo : marked (infoMethod settings.info) = [] := by
    unfold infoMethod
    split <;> simp [marked_method]
  simp [methodLines, poolUses, marked_method, hinfo]

theorem marked_serviceStart (x : Context) : marked (serviceStart x) = [] := by
  simp [serviceStart, errorLines, contextLine, onlyIf_nil]

theorem marked_serviceEnd : marked serviceEnd = [] := by simp [serviceEnd]

theorem marked_plain {st : Statement} (h : (Line.plain st).isBare = false) (l : List Line) :
    marked (.plain st :: l) = .plain st :: marked l := by
  rw [marked, List.filter_cons_of_pos (by simp [h])]
  rfl

@[simp] theorem marked_method_head (name : String) (l : List Line) :
    marked (.opens (.method name) :: l) = .opens (.method name) :: marked l := rfl

@[simp] theorem marked_deferred (number : Nat) (l : List Line) :
    marked (.opens (.deferred number) :: l) = .opens (.deferred number) :: marked l := rfl

theorem marked_caseLines (numbers : List Nat) :
    marked (numbers.flatMap caseLines) =
      marked (numbers.map fun number => .plain (.caseLabel number)) := by
  induction numbers with
  | nil => rfl
  | cons number numbers ih =>
    rw [List.flatMap_cons, List.map_cons, marked_append, ih, marked_plain rfl, caseLines,
      marked_plain rfl, marked_inner, marked_inner]
    rfl

theorem marked_deferredSections (entries : List (Nat × Option Code)) :
    marked ((entries.flatMap fun (number, code) => deferredSections number code).flatMap
      Section.lines) =
      marked (entries.flatMap fun (number, code) =>
        .opens (.deferred number) :: (code.getD []).lines) := by
  induction entries with
  | nil => rfl
  | cons entry entries ih =>
    rw [List.flatMap_cons, List.flatMap_append, List.flatMap_cons, marked_append, marked_append, ih]
    simp [deferredSections, Section.lines]

theorem marked_helperSections (deferred : List (Option Code)) :
    marked ((helperSections deferred).flatMap Section.lines) = marked (helperMembers deferred) := by
  unfold helperSections
  split
  · rename_i h
    rw [List.isEmpty_iff.mp h]
    rfl
  · simp [Section.lines, helperStart, helperEnd, helperMembers, marked_caseLines,
      marked_deferredSections]

theorem marked_classLines (x : Context) (package name : String) (body : Code) (s : State) :
    marked (classLines x package name body s) =
      marked (fieldMembers s ++ s.declarations.lines ++ poolUses s ++ body.lines ++
        s.methods.flatMap Code.lines ++ helperMembers s.deferred) := by
  have hdeclarations : marked ((declarationSections s.declarations).flatMap Section.lines) =
      marked s.declarations.lines := by
    unfold declarationSections
    split
    · rename_i h
      rw [List.isEmpty_iff.mp h]
      rfl
    · simp [Section.lines]
  have hmethods : (s.methods.map (Section.code 1)).flatMap Section.lines =
      s.methods.flatMap Code.lines := by
    rw [List.flatMap_map]
    rfl
  simp [classLines, sections, Section.lines, marked_headLines, hdeclarations, marked_methodLines,
    marked_serviceStart, marked_serviceEnd, hmethods, marked_helperSections]

theorem mem_range_zip {α : Type} {l : List α} {k : Nat} {a : α} :
    (k, a) ∈ (List.range l.length).zip l ↔ l[k]? = some a := by
  rw [List.mem_iff_getElem?]
  constructor
  · rintro ⟨i, hi⟩
    obtain ⟨hk, ha⟩ := List.getElem?_zip_eq_some.mp hi
    obtain ⟨hlt, hik⟩ := List.getElem?_eq_some_iff.mp hk
    rw [List.getElem_range] at hik
    subst hik
    exact ha
  · intro hk
    obtain ⟨hlt, -⟩ := List.getElem?_eq_some_iff.mp hk
    exact ⟨k, List.getElem?_zip_eq_some.mpr ⟨by simp [hlt], hk⟩⟩

-- The lines of a class that are not statements of the page.
def ownMembers (s : State) : List Line :=
  fieldMembers s ++ poolUses s ++
    (List.range s.deferred.length).map (fun number => .opens (.deferred number)) ++
    (List.range s.deferred.length).map fun number => .plain (.caseLabel number)

theorem flatMap_ownMembers {α : Type} (g : Line → List α) (s : State) :
    (ownMembers s).flatMap g =
      ((List.range s.functionMaps.length).zip s.functionMaps).flatMap (fun (index, functions) =>
        g (.plain (.declareFunctions index functions))) ++
      ((List.range s.charArrays.length).zip s.charArrays).flatMap (fun (index, text) =>
        g (.plain (.declareArray index text))) ++
      (poolNames s).flatMap (fun pool => g (.plain (.declarePool pool))) ++
      (poolNames s).flatMap (fun pool => g (.plain (.initPool pool))) ++
      (poolNames s).flatMap (fun pool => g (.plain (.releasePool pool))) ++
      (List.range s.deferred.length).flatMap (fun number => g (.opens (.deferred number))) ++
      (List.range s.deferred.length).flatMap fun number => g (.plain (.caseLabel number)) := by
  simp [ownMembers, fieldMembers, poolUses, FunctionMaps.declarations, List.flatMap_map]

theorem perm_flatMap_cons (entries : List (Nat × Option Code)) :
    (entries.flatMap fun (number, code) =>
        Line.opens (.deferred number) :: (code.getD []).lines).Perm
      (entries.map (fun entry => Line.opens (.deferred entry.1)) ++
        entries.flatMap fun entry => (entry.2.getD []).lines) := by
  induction entries with
  | nil => exact List.Perm.refl _
  | cons entry entries ih =>
    simp only [List.flatMap_cons, List.map_cons, List.cons_append]
    refine List.Perm.cons _ ((List.Perm.append_left _ ih).trans ?_)
    rw [← List.append_assoc, ← List.append_assoc]
    exact List.Perm.append_right _ List.perm_append_comm

theorem perm_helperMembers (deferred : List (Option Code)) :
    (helperMembers deferred).Perm
      ((List.range deferred.length).map (fun number => Line.opens (.deferred number)) ++
        deferred.flatMap (fun code => (code.getD []).lines) ++
        (List.range deferred.length).map fun number => Line.plain (.caseLabel number)) := by
  have hnumbers : ((List.range deferred.length).zip deferred).map Prod.fst =
      List.range deferred.length := List.map_fst_zip (by simp)
  have hcodes : ((List.range deferred.length).zip deferred).map Prod.snd = deferred :=
    List.map_snd_zip (by simp)
  have hperm := perm_flatMap_cons ((List.range deferred.length).zip deferred)
  generalize hentries : (List.range deferred.length).zip deferred = entries at *
  unfold helperMembers
  rw [hentries, ← hnumbers, List.map_map, List.map_map]
  refine List.Perm.append_right _ (hperm.trans ?_)
  conv =>
    rhs
    rw [← hcodes, List.flatMap_map]
  exact List.Perm.refl _

-- Apart from bare text, a class is made of its own lines and of those of the page.
theorem perm_marked_classLines (x : Context) (package name : String) (body : Code) (s : State) :
    (marked (classLines x package name body s)).Perm
      (marked (ownMembers s ++ (body.lines ++ s.lines))) := by
  rw [marked_classLines]
  refine List.Perm.filter _ ?_
  refine (List.Perm.append_left _ (perm_helperMembers s.deferred)).trans ?_
  unfold ownMembers State.lines
  rw [← Multiset.coe_eq_coe]
  simp only [← Multiset.coe_add]
  abel

theorem mem_classLines {line : Line} (h : line.isBare = false) (x : Context)
    (package name : String) (body : Code) (s : State) :
    line ∈ classLines x package name body s ↔ line ∈ ownMembers s ++ (body.lines ++ s.lines) := by
  have hperm := (perm_marked_classLines x package name body s).mem_iff (a := line)
  simpa only [marked, List.mem_filter, h, Bool.not_false, and_true] using hperm

theorem isBare_operands (line : Line) (h : line.isBare = true) : line.operands = [] := by
  unfold Line.isBare at h
  split at h <;> first | rfl | cases h

-- Values are found in the lines of the page alone.
theorem mem_lines_of_operands {x : Context} {package name : String} {body : Code} {s : State}
    {line : Line} {op : Operand} (h : line ∈ classLines x package name body s)
    (hop : op ∈ line.operands) : line ∈ body.lines ++ s.lines := by
  have hbare : line.isBare = false := by
    by_contra hbare
    rw [isBare_operands line (by simpa using hbare)] at hop
    cases hop
  have hown : (ownMembers s).flatMap Line.operands = [] := by
    simp [flatMap_ownMembers, Line.operands, Statement.operands, flatMap_none]
  refine (List.mem_append.mp ((mem_classLines hbare ..).mp h)).resolve_left fun hline => ?_
  rw [List.flatMap_eq_nil_iff.mp hown line hline] at hop
  cases hop

end ClassText

open ClassText

-- How the class of a page has come about.
structure CompiledPage.Assembled (o : Options) (loader : Loader) (resolver : Resolver)
    (name : String) (p : CompiledPage) (c : CheckedPage) (body : Code) (s : State) : Prop where
  checked : ∃ resolver', CheckedPage.ofUnit o loader resolver name = (.ok c, resolver')
  generated : pageCode ⟨o, c⟩ {} = .ok (body, s)
  source_eq : p.source = (assemble (sections ⟨o, c⟩ p.package p.className body s)).1

theorem CheckedPage.generate_eq_ok {c : CheckedPage} {o : Options} {p : CompiledPage}
    (h : c.generate o = .ok p) : ∃ body s, pageCode ⟨o, c⟩ {} = .ok (body, s) ∧
      p.source = (assemble (sections ⟨o, c⟩ p.package p.className body s)).1 := by
  cases hcode : pageCode ⟨o, c⟩ {} with
  | error d =>
    rw [(generate_of_pageCode c o).2 hcode] at h
    cases h
  | ok r =>
    obtain ⟨body, s⟩ := r
    refine ⟨body, s, rfl, ?_⟩
    unfold generate at h
    simp only [StateT.run, hcode] at h
    have hp := Except.ok.inj h
    rw [← hp]

theorem CompiledPage.exists_assembled {o : Options} {loader : Loader}
    {resolver resolver' : Resolver} {name : String} {p : CompiledPage}
    (h : CompiledPage.ofUnit o loader resolver name = (.ok p, resolver')) :
    ∃ c body s, Assembled o loader resolver name p c body s := by
  unfold CompiledPage.ofUnit at h
  cases hcheck : CheckedPage.ofUnit o loader resolver name with
  | mk checked r =>
    rw [hcheck] at h
    obtain ⟨c, hc, hgenerate⟩ := Checking.bind_eq_ok.mp (Prod.mk.inj h).1
    subst hc
    obtain ⟨body, s, hcode, hsource⟩ := CheckedPage.generate_eq_ok hgenerate
    exact ⟨c, body, s, ⟨r, hcheck⟩, hcode, hsource⟩

namespace CompiledPage.Assembled

variable {o : Options} {loader : Loader} {resolver : Resolver} {name : String} {p : CompiledPage}
  {c : CheckedPage} {body : Code} {s : State} (h : Assembled o loader resolver name p c body s)
include h

theorem annotated : Annotated ⟨o, c⟩ := by
  obtain ⟨_, hc⟩ := h.checked
  exact CheckedPage.annotated hc

theorem writes :
    Writes ⟨o, c⟩ .returns (splitNodes ⟨o, c⟩ (c.page.tree.size + 1) Tree.root) ⟨{}, 0⟩ body.lines
      ⟨s, 0⟩ :=
  h.annotated.writes_pageCode h.generated

-- Nothing has been collected at the start, so that all is right at the end.
theorem sound : Sound ⟨o, c⟩ ⟨s, 0⟩ ∧ ∀ line ∈ body.lines ++ s.lines, Justified ⟨o, c⟩ s line := by
  have hstart : Sound ⟨o, c⟩ ⟨{}, 0⟩ := by
    constructor <;> simp [State.lines, Code.lines]
  obtain ⟨hsound, -, hlines⟩ := h.writes.sound hstart
  exact ⟨hsound, List.forall_mem_append.mpr ⟨hlines, hsound.lines⟩⟩

end CompiledPage.Assembled

-- Whether a page compiles to a class for which a test holds.
def CompiledPage.passes (o : Options) (loader : Loader) (resolver : Resolver) (name : String)
    (test : CompiledPage → CheckedPage → Code → State → Bool) : Bool :=
  match CompiledPage.ofUnit o loader resolver name, CheckedPage.ofUnit o loader resolver name with
  | (.ok p, _), (.ok c, _) =>
    match pageCode ⟨o, c⟩ {} with
    | .ok (body, s) => test p c body s
    | .error _ => false
  | _, _ => false

theorem CompiledPage.of_passes {o : Options} {loader : Loader} {resolver : Resolver}
    {name : String} {test : CompiledPage → CheckedPage → Code → State → Bool}
    (h : passes o loader resolver name test = true) :
    ∃ p resolver', CompiledPage.ofUnit o loader resolver name = (.ok p, resolver') ∧
      ∀ {c body s}, Assembled o loader resolver name p c body s → test p c body s = true := by
  unfold passes at h
  split at h
  · rename_i p resolver' c resolver'' hp hc
    refine ⟨p, resolver', hp, fun {c' body s} hassembled => ?_⟩
    obtain ⟨_, hc'⟩ := hassembled.checked
    rw [hc] at hc'
    cases hc'
    rwa [hassembled.generated] at h
  · cases h

end PageCompiler
