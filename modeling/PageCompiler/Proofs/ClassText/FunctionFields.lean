import PageCompiler.Proofs.Checking.RawCode
import PageCompiler.Proofs.ClassText.FunctionSets
import PageCompiler.Proofs.ClassText.Tally

namespace PageCompiler

open ClassText

namespace Composite

-- The place of an expression does not matter for what it calls.
theorem functions_eq_unplaced (c : Composite) :
    c.functions = (c.parts.map Part.unplaced).flatMap fun
      | .expr _ _ tree _ => tree.functions
      | .text _ => [] := by
  rw [functions, List.flatMap_map]
  refine congrArg (List.flatMap · c.parts) (funext fun part => ?_)
  cases part <;> rfl

theorem functions_of_unplaced {c c' : Composite}
    (h : c'.parts.map Part.unplaced = c.parts.map Part.unplaced) : c'.functions = c.functions := by
  rw [functions_eq_unplaced, functions_eq_unplaced, h]

end Composite

-- An expression in the text has its calls checked, unless expressions are taken as text.
theorem Checking.checkNode_insert {x : Context} {s s' : State} {id : NodeId} {data : Insert}
    (h : checkNode x s id = .ok s') (hk : x.tree.kind id = .insert data)
    (hel : x.settings.elIgnored = false) :
    checkFunctions x data.tree.functions (x.tree.mark id) = .ok () := by
  unfold checkNode at h
  dsimp only at h
  rw [show (x.tree.node id).kind = .insert data from hk] at h
  obtain ⟨_, hinsert, -⟩ := bind_eq_ok.mp h
  unfold checkInsert at hinsert
  rw [hel, if_neg Bool.false_ne_true] at hinsert
  split at hinsert
  · cases hinsert
  · exact hinsert

-- The source of an expression says what is called, and all of that is declared.
theorem CheckedPage.resolved_of_evaluated {o : Options} {loader : Loader}
    {resolver resolver' : Resolver} {name : String} {c : CheckedPage}
    (h : CheckedPage.ofUnit o loader resolver name = (.ok c, resolver')) {source : String}
    {calls : List FunctionUse} (he : Evaluated ⟨o, c⟩ source calls) :
    Resolved c.page.bindings calls ∧
      ∃ parts, Composite.parse {} source.toList = .ok parts ∧ parts.functions = calls := by
  have hx := annotated h
  cases he with
  | @inAttribute id a written parts dialect hid ha hv =>
    obtain ⟨supplied, -, policy, hclassify⟩ := (hx.established id hid).exists_supplied ha
    rw [hv] at hclassify
    cases Checking.classified_of_classify hclassify with
    | expression _ _ _ hparse _ _ _ hfunctions =>
      have hlegible := Composite.legible_of_parse hparse
      obtain ⟨parts', hread, hsame⟩ := Composite.exists_parse_of_legible hlegible
      refine ⟨fun call hcall => ⟨?_, bound_of_checkFunctions hfunctions call hcall⟩, parts', hread,
        Composite.functions_of_unplaced hsame⟩
      exact Composite.hasNames_of_legible hlegible call hcall
  | @inText id data hid hk hel =>
    obtain ⟨page, hread, hcheck⟩ := ofUnit_eq_ok h
    have hwell := Page.wellFormed_read hread
    obtain ⟨rfl, s₀, s, -, -, hrun, -⟩ := Page.check_progress hcheck fun id hid =>
      hwell.lt_size_of_mem_preorder hid
    have hsource := Page.sourced_read hread id data hk
    have hlegible : Composite.Legible [.expr data.dialect data.source data.tree 0] :=
      ⟨hsource.closes, hsource.parse_eq, trivial⟩
    obtain ⟨parts, hparts, hsame⟩ := Composite.exists_parse_of_legible
      (c := ⟨[.expr data.dialect data.source data.tree 0]⟩) hlegible
    have hfunctions := Composite.functions_of_unplaced hsame
    have htext : Composite.sourceText ⟨[.expr data.dialect data.source data.tree 0]⟩ =
        data.dialect.enclose data.source := by
      simp [Composite.sourceText, Composite.Part.source]
    obtain ⟨s₁, s₂, hnode⟩ := Checking.checked_of_mem hrun hid
    refine ⟨fun call hcall => ⟨?_, ?_⟩, parts, htext ▸ hparts, ?_⟩
    · exact Expression.hasNames_of_parse hsource.parse_eq call hcall
    · exact bound_of_checkFunctions (Checking.checkNode_insert hnode hk hel) call hcall
    · simpa [Composite.functions] using hfunctions

namespace ClassText

def Line.functions : Line → List (Nat × List MappedFunction)
  | plain (.declareFunctions index functions) => [(index, functions)]
  | _ => []

-- The fields of functions that a class declares, with their entries.
def functionFields (lines : List Line) : List (Nat × List MappedFunction) :=
  lines.flatMap Line.functions

-- The functions that are called.
def Calls (bindings : Bindings) (calls : List FunctionUse) (f : MappedFunction) : Prop :=
  ∃ call ∈ calls, Bound bindings call f

-- What goes with an expression: nothing without calls, and otherwise the field that holds just the
-- functions that are called.
def Holds (bindings : Bindings) (lines : List Line) (calls : List FunctionUse) : Option Nat → Prop
  | none => calls = []
  | some k => calls ≠ [] ∧ ∃ entries, (k, entries) ∈ functionFields lines ∧ entries.Nodup ∧
    ∀ f, f ∈ entries ↔ Calls bindings calls f

-- The expressions of a class are read as the runtime reads them.
structure CompleteFields (bindings : Bindings) (lines : List Line) : Prop where
  declared : ((functionFields lines).map Prod.fst).Nodup
  held : ∀ {source : String} {field : Option Nat}, (source, field) ∈ evaluations lines →
    ∃ parts, Composite.parse {} source.toList = .ok parts ∧
      (∀ call ∈ parts.functions, ∃ f, Bound bindings call f) ∧
      Holds bindings lines parts.functions field
  shared : ∀ {source source' : String} {field field' : Option Nat} {parts parts' : Composite},
    (source, field) ∈ evaluations lines → (source', field') ∈ evaluations lines →
    Composite.parse {} source.toList = .ok parts → Composite.parse {} source'.toList = .ok parts' →
    (field = field' ↔ ∀ f, Calls bindings parts.functions f ↔ Calls bindings parts'.functions f)

variable {x : Context} {s : State} {package name : String} {body : Code}

-- No line of the page declares such a field.
theorem perm_functionFields {e : Leave} {v : Multiset NodeId} (package name : String)
    (h : Writes x e v ⟨{}, 0⟩ body.lines ⟨s, 0⟩) :
    (functionFields (classLines x package name body s)).Perm
      ((List.range s.functionMaps.length).zip s.functionMaps) := by
  have hown : (ownMembers s).flatMap Line.functions =
      (List.range s.functionMaps.length).zip s.functionMaps := by
    simp [flatMap_ownMembers, Line.functions, flatMap_none]
  rw [← hown]
  refine h.perm_ownMembers fun line hline => ?_
  unfold Line.functions
  split
  · cases hline
  · rfl

-- Every expression of a class is one of the page.
theorem field_of_mem_evaluations (h : ∀ line ∈ body.lines ++ s.lines, Justified x s line)
    {source : String} {field : Option Nat}
    (he : (source, field) ∈ evaluations (classLines x package name body s)) :
    Field x s.functionMaps source field := by
  obtain ⟨op, hop, hevaluation⟩ := List.mem_filterMap.mp he
  obtain ⟨line, hline, hop⟩ := List.mem_flatMap.mp hop
  have hline := mem_lines_of_operands hline hop
  cases line with
  | plain st =>
    rcases (h _ hline).1 op hop with hwaits | hdeferred
    · cases op with
      | evaluate | valueExpression | methodExpression =>
        cases hevaluation
        exact hwaits
      | code | charArray | deferredBody => cases hevaluation
    · cases op with
      | deferredBody => cases hevaluation
      | _ => cases hdeferred
  | _ => cases hop

-- The field of some functions is none, or holds just these.
def FieldOf (maps : FunctionMaps) (functions : List MappedFunction) : Option Nat → Prop
  | none => functions = []
  | some k => functions ≠ [] ∧ maps[k]? = some functions

-- The field of an expression is the one for all that its source calls.
theorem Field.exists_parse {maps : FunctionMaps} {source : String} {field : Option Nat}
    (hresolved : ∀ {source calls}, Evaluated x source calls →
      Resolved x.checked.page.bindings calls ∧
        ∃ parts, Composite.parse {} source.toList = .ok parts ∧ parts.functions = calls)
    (hmaps : ∀ functions ∈ maps, functions ≠ [] ∧ ∃ source calls, Evaluated x source calls ∧
      functions = FunctionMaps.mappedSet x.checked.page.bindings calls)
    (h : Field x maps source field) :
    ∃ parts, Composite.parse {} source.toList = .ok parts ∧
      Resolved x.checked.page.bindings parts.functions ∧
      FieldOf maps (FunctionMaps.mappedSet x.checked.page.bindings parts.functions) field := by
  obtain ⟨calls, hcalls, hfield⟩ := h
  obtain ⟨hall, parts, hparts, rfl⟩ := hresolved hcalls
  refine ⟨parts, hparts, hall, ?_⟩
  cases field with
  | none => exact hfield
  | some k =>
    obtain ⟨hne, functions, hk, hkey⟩ := hfield
    obtain ⟨hsome, source', calls', hcalls', rfl⟩ := hmaps functions (List.mem_of_getElem? hk)
    exact ⟨hne, by rw [hk, FunctionMaps.key_injective (hresolved hcalls').1 hall hsome hne hkey]⟩

-- Fields are numbered without repetition.
theorem FieldOf.eq_iff {maps : FunctionMaps} (hkeys : (maps.map FunctionMaps.key).Nodup)
    {field field' : Option Nat} {functions functions' : List MappedFunction}
    (h : FieldOf maps functions field) (h' : FieldOf maps functions' field') :
    field = field' ↔ functions = functions' := by
  cases field with
  | none =>
    have h : functions = [] := h
    cases field' with
    | none =>
      have h' : functions' = [] := h'
      simp [h, h']
    | some k' => simp [h, Ne.symm h'.1]
  | some k =>
    cases field' with
    | none =>
      have h' : functions' = [] := h'
      simp [h', h.1]
    | some k' =>
      obtain ⟨-, hk⟩ := h
      obtain ⟨-, hk'⟩ := h'
      obtain ⟨hlt, rfl⟩ := List.getElem?_eq_some_iff.mp hk
      obtain ⟨hlt', rfl⟩ := List.getElem?_eq_some_iff.mp hk'
      rw [Option.some.injEq, (List.Nodup.of_map _ hkeys).getElem_inj_iff]

end ClassText

-- In the class of a page that compiles, every evaluation of an expression is handed no field when
-- the expression calls nothing, and otherwise the one field, declared once, that holds each
-- function the expression calls and no other, as the bound library declares it. No call is left
-- out, and two expressions have the same field just when they call the same functions.
theorem CompiledPage.functionFields_ofUnit {o : Options} {loader : Loader}
    {resolver resolver' : Resolver} {name : String} {p : CompiledPage}
    (h : CompiledPage.ofUnit o loader resolver name = (.ok p, resolver')) :
    ∃ c body s, Assembled o loader resolver name p c body s ∧
      CompleteFields c.page.bindings (classLines ⟨o, c⟩ p.package p.className body s) := by
  obtain ⟨c, body, s, hassembled⟩ := exists_assembled h
  refine ⟨c, body, s, hassembled, ?_⟩
  obtain ⟨_, hc⟩ := hassembled.checked
  obtain ⟨hsound, hlines⟩ := hassembled.sound
  have hfields := perm_functionFields p.package p.className hassembled.writes
  have hheld : ∀ {source field}, (source, field) ∈
      evaluations (classLines ⟨o, c⟩ p.package p.className body s) →
      ∃ parts, Composite.parse {} source.toList = .ok parts ∧
        Resolved c.page.bindings parts.functions ∧
        FieldOf s.functionMaps (FunctionMaps.mappedSet c.page.bindings parts.functions) field :=
    fun he => (field_of_mem_evaluations hlines he).exists_parse
      (CheckedPage.resolved_of_evaluated hc) hsound.functions
  refine ⟨?_, fun {source field} he => ?_, fun he he' hp hp' => ?_⟩
  · rw [(hfields.map Prod.fst).nodup_iff, List.map_fst_zip (by simp)]
    exact List.nodup_range
  · obtain ⟨parts, hparts, hall, hfield⟩ := hheld he
    refine ⟨parts, hparts, fun call hcall => (hall call hcall).2, ?_⟩
    cases field with
    | none => exact (FunctionMaps.mappedSet_eq_nil_iff hall).mp hfield
    | some k =>
      obtain ⟨hne, hk⟩ := hfield
      refine ⟨fun hnone => hne ((FunctionMaps.mappedSet_eq_nil_iff hall).mpr hnone), _,
        hfields.mem_iff.mpr (mem_range_zip.mpr hk), FunctionMaps.nodup_mappedSet, fun f => ?_⟩
      exact FunctionMaps.mem_mappedSet
  · obtain ⟨_, hparts, hall, hfield⟩ := hheld he
    obtain ⟨_, hparts', hall', hfield'⟩ := hheld he'
    rw [hp] at hparts
    rw [hp'] at hparts'
    cases hparts
    cases hparts'
    rw [hfield.eq_iff hsound.keys hfield']
    exact FunctionMaps.mappedSet_eq_iff hall hall'

-- A library of functions, and a page that calls some of them in its text and in an attribute: two
-- of the expressions call the same ones.
def functionLibrary : Library :=
  { uri := "urn:sample", shortName := "sample"
    functions := [
      { name := "up", className := "sample.Text"
        signature := "java.lang.String up(java.lang.String)" },
      { name := "cut", className := "sample.Text"
        signature := "java.lang.String cut(java.lang.String, int)" }] }

def functionUnits : Loader :=
  .ofUnits
    [("main.page", Text.Utf8.ofString
      ("<%@ taglib prefix=\"s\" uri=\"urn:sample\" %>" ++
        "$\x7ba\x7d$\x7bs:up(a)\x7d<jsp:include page=\"$\x7bs:up(b)\x7d\"/>" ++
        "$\x7bs:cut(c, 1)\x7d"))]

theorem CompiledPage.functionFields_ofUnit_sample :
    ∃ p resolver c body s, CompiledPage.ofUnit {} functionUnits (.ofLibraries [functionLibrary])
        "main.page" = (.ok p, resolver) ∧
      Assembled {} functionUnits (.ofLibraries [functionLibrary]) "main.page" p c body s ∧
      CompleteFields c.page.bindings (classLines ⟨{}, c⟩ p.package p.className body s) ∧
      (evaluations (classLines ⟨{}, c⟩ p.package p.className body s)).map Prod.snd =
        [none, some 0, some 0, some 1] := by
  have hrun : passes {} functionUnits (.ofLibraries [functionLibrary]) "main.page"
      (fun p c body s =>
        (evaluations (classLines ⟨{}, c⟩ p.package p.className body s)).map Prod.snd ==
          [none, some 0, some 0, some 1]) = true := by
    rw [functionUnits, Text.Utf8.ofString_append, Text.Utf8.ofString_append]
    repeat rw [Text.Utf8.ofString_ofList]
    decide +kernel
  obtain ⟨p, resolver, hp, htest⟩ := of_passes hrun
  obtain ⟨c, body, s, hassembled, hfields⟩ := functionFields_ofUnit hp
  exact ⟨p, resolver, c, body, s, hp, hassembled, hfields, by simpa using htest hassembled⟩

end PageCompiler
