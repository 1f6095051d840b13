import PageCompiler.Proofs.ClassText.InlinedActions
import PageCompiler.Proofs.ClassText.Tally

namespace PageCompiler

open ClassText

section

variable (o : Options) (l : LiteralStrategy) (loader : Loader)

theorem Page.readUnit_withStrategy (depth : Nat) :
    readUnit (o.withStrategy l) loader depth = readUnit o loader depth := by
  induction depth with
  | zero => rfl
  | succ depth ih =>
    rw [readUnit, readUnit, ih]
    rfl

-- No page is read or checked for a strategy.
theorem CheckedPage.ofUnit_withStrategy (resolver : Resolver) (name : String) :
    ofUnit (o.withStrategy l) loader resolver name = ofUnit o loader resolver name := by
  have hread : Page.read (o.withStrategy l) loader resolver name =
      Page.read o loader resolver name := by
    rw [Page.read, Page.read, Page.readUnit_withStrategy]
    rfl
  rw [ofUnit, ofUnit, hread]
  rfl

end

namespace ClassText

def Line.arrays : Line → List (Nat × String)
  | plain (.declareArray index text) => [(index, text)]
  | _ => []

-- The constant arrays that a class declares, with their texts.
def arrayFields (lines : List Line) : List (Nat × String) := lines.flatMap Line.arrays

-- The lines that declare no array.
def withoutArrays (lines : List Line) : List Line := lines.filter fun line => line.arrays.isEmpty

-- What stands in a class with literals for a line of a class with arrays. Only the argument of a
-- write may be different.
inductive Line.Exchanged (arrays : List String) : Line → Line → Prop where
  | same {line : Line} (h : ∀ k, line ≠ .plain (.write (.charArray k))) : Exchanged arrays line line
  | literal {k : Nat} {text : String} (h : arrays[k]? = some text) :
      Exchanged arrays (.plain (.write (.code (quote text)))) (.plain (.write (.charArray k)))

structure Stretch.Exchanged (arrays : List String) (s s' : Stretch) : Prop where
  lines : List.Forall₂ (Line.Exchanged arrays) s.lines s'.lines
  unit_eq : s.unit = s'.unit
  sources_eq : s.sources = s'.sources

def Code.Exchanged (arrays : List String) : Code → Code → Prop :=
  List.Forall₂ (Stretch.Exchanged arrays)

inductive Section.Exchanged (arrays : List String) : Section → Section → Prop where
  | own (lines : List Line) : Exchanged arrays (.own lines) (.own lines)
  | code (indent : Nat) {c c' : Code} (h : Code.Exchanged arrays c c') :
      Exchanged arrays (.code indent c) (.code indent c')

-- A class with literals and one with arrays for these texts that are the same program: the service
-- body, the methods that were split off and the deferred bodies, and all that stands around them.
structure SameProgram (arrays : List String) (x x' : Context) (package name : String)
    (body : Code) (s : State) (body' : Code) (s' : State) : Prop where
  undeclared : arrayFields (classLines x package name body s) = []
  declared : (arrayFields (classLines x' package name body' s')).Perm
    ((List.range arrays.length).zip arrays)
  -- Equal texts share a field, and no two fields are for the same text.
  field_iff : ∀ {k k' : Nat} {text text' : String}, arrays[k]? = some text →
    arrays[k']? = some text' → (k = k' ↔ text = text')
  service : Code.Exchanged arrays body body'
  methods : List.Forall₂ (Code.Exchanged arrays) s.methods s'.methods
  deferred : List.Forall₂ (Option.Rel (Code.Exchanged arrays)) s.deferred s'.deferred
  head : headLines x package name s = withoutArrays (headLines x' package name s')
  sections : List.Forall₂ (Section.Exchanged arrays) (sections x package name body s).tail
    (sections x' package name body' s').tail

variable {arrays : List String}

-- A line refers to an array that is there.
def Line.Within (arrays : List String) (line : Line) : Prop :=
  ∀ k, line = .plain (.write (.charArray k)) → k < arrays.length

theorem Line.exchanged_inlined {line : Line} (h : line.Within arrays) :
    Line.Exchanged arrays (line.inlined arrays) line := by
  by_cases hline : ∃ k, line = .plain (.write (.charArray k))
  · obtain ⟨k, rfl⟩ := hline
    have hlt : k < arrays.length := h k rfl
    have htext : arrays[k]? = some arrays[k] := List.getElem?_eq_getElem hlt
    have hinlined : (Line.plain (.write (.charArray k))).inlined arrays =
        .plain (.write (.code (quote arrays[k]))) := by
      rw [Line.inlined, Operand.inlined, List.getD_eq_getElem?_getD, htext, Option.getD_some]
    rw [hinlined]
    exact .literal htext
  · have hsame : line.inlined arrays = line := by
      unfold inlined
      split
      · next value =>
        cases value with
        | charArray k => exact absurd ⟨k, rfl⟩ hline
        | _ => rfl
      · rfl
    rw [hsame]
    exact .same fun k hk => hline ⟨k, hk⟩

theorem Code.exchanged_inlined {c : Code} (h : ∀ line ∈ c.lines, line.Within arrays) :
    Code.Exchanged arrays (c.inlined arrays) c := by
  refine List.forall₂_map_left_iff.mpr (List.forall₂_same.mpr fun st hst => ⟨?_, rfl, rfl⟩)
  refine List.forall₂_map_left_iff.mpr (List.forall₂_same.mpr fun line hline => ?_)
  exact Line.exchanged_inlined (h line (List.mem_flatMap.mpr ⟨st, hst, hline⟩))

def Section.inlined (arrays : List String) : Section → Section
  | .own lines => .own lines
  | .code indent c => .code indent (c.inlined arrays)

theorem Section.exchanged_inlined {sec : Section} (h : ∀ line ∈ sec.lines, line.Within arrays) :
    Section.Exchanged arrays (sec.inlined arrays) sec := by
  cases sec with
  | own lines => exact .own lines
  | code indent c => exact .code indent (Code.exchanged_inlined h)

theorem helperSections_inlined (deferred : List (Option Code)) :
    helperSections (deferred.map (Option.map (Code.inlined arrays))) =
      (helperSections deferred).map (Section.inlined arrays) := by
  unfold helperSections
  rw [List.isEmpty_map, List.length_map]
  split
  · rfl
  · have hbody : ∀ n code, deferredSections n (Option.map (Code.inlined arrays) code) =
        (deferredSections n code).map (Section.inlined arrays) := by
      intro n code
      cases code <;> rfl
    simp only [List.zip_map_right, List.flatMap_map, Prod.map_fst, Prod.map_snd, id, hbody,
      List.map_append, List.map_cons, List.map_flatMap]
    rfl

theorem declarationSections_inlined (declarations : Code) :
    declarationSections (declarations.inlined arrays) =
      (declarationSections declarations).map (Section.inlined arrays) := by
  cases declarations <;> rfl

theorem sections_inlined (x : Context) (package name : String) (body : Code) (s : State) :
    (sections (x.withStrategy .inline) package name (body.inlined arrays)
        (s.inlined arrays)).tail =
      (sections (x.withStrategy .charArrays) package name body s).tail.map
        (Section.inlined arrays) := by
  have hmethods : (s.methods.map (Code.inlined arrays)).map (Section.code 1) =
      (s.methods.map (Section.code 1)).map (Section.inlined arrays) := by
    rw [List.map_map, List.map_map]
    rfl
  change declarationSections (s.declarations.inlined arrays) ++ ([_, _, _, _] ++
      ((s.methods.map (Code.inlined arrays)).map (Section.code 1) ++
        (helperSections (s.deferred.map (Option.map (Code.inlined arrays))) ++ ([_] ++ [])))) =
    (declarationSections s.declarations ++ ([_, _, _, _] ++ (s.methods.map (Section.code 1) ++
      (helperSections s.deferred ++ ([_] ++ []))))).map (Section.inlined arrays)
  rw [declarationSections_inlined, hmethods, helperSections_inlined]
  simp only [List.map_append]
  rfl

theorem withoutArrays_append (l l' : List Line) :
    withoutArrays (l ++ l') = withoutArrays l ++ withoutArrays l' := List.filter_append ..

theorem withoutArrays_map {α : Type} {f : α → Line} (h : ∀ a, (f a).arrays = []) (l : List α) :
    withoutArrays (l.map f) = l.map f := by
  refine List.filter_eq_self.mpr fun line hline => ?_
  obtain ⟨a, -, rfl⟩ := List.mem_map.mp hline
  rw [h]
  rfl

theorem withoutArrays_poolFields (pools : List String) :
    withoutArrays (poolFields pools) = poolFields pools := by
  unfold poolFields
  split
  · rfl
  · exact (List.filter_cons_of_pos rfl).trans (congrArg _ (withoutArrays_map (fun _ => rfl) pools))

theorem withoutArrays_arrays (entries : List (Nat × String)) :
    withoutArrays (entries.map fun (index, text) => .plain (.declareArray index text)) = [] := by
  refine List.filter_eq_nil_iff.mpr fun line hline => ?_
  obtain ⟨entry, -, rfl⟩ := List.mem_map.mp hline
  exact Bool.false_ne_true

-- The declarations of the arrays are all that is missing.
theorem headLines_inlined (x : Context) (package name : String) (s : State) :
    headLines (x.withStrategy .inline) package name (s.inlined arrays) =
      withoutArrays (headLines (x.withStrategy .charArrays) package name s) := by
  have hmaps : withoutArrays s.functionMaps.declarations = s.functionMaps.declarations :=
    withoutArrays_map (fun _ => rfl) _
  have himports : ∀ imports : List String,
      withoutArrays (imports.map fun i => Line.code ("import " ++ i ++ ";")) =
        imports.map fun i => Line.code ("import " ++ i ++ ";") := withoutArrays_map fun _ => rfl
  unfold headLines fieldLines
  simp only [List.flatten_cons, List.flatten_nil, withoutArrays_append, withoutArrays_arrays,
    withoutArrays_poolFields, hmaps, himports]
  rfl

-- No line of the page declares an array.
theorem perm_arrayFields {x : Context} {e : Leave} {v : Multiset NodeId} {body : Code} {s : State}
    (package name : String) (h : Writes x e v ⟨{}, 0⟩ body.lines ⟨s, 0⟩) :
    (arrayFields (classLines x package name body s)).Perm
      ((List.range s.charArrays.length).zip s.charArrays) := by
  have hown : (ownMembers s).flatMap Line.arrays =
      (List.range s.charArrays.length).zip s.charArrays := by
    simp [flatMap_ownMembers, Line.arrays, flatMap_none]
  rw [← hown]
  refine h.perm_ownMembers fun line hline => ?_
  unfold Line.arrays
  split
  · cases hline
  · rfl

theorem field_iff_of_nodup (h : arrays.Nodup) {k k' : Nat} {text text' : String}
    (hk : arrays[k]? = some text) (hk' : arrays[k']? = some text') : k = k' ↔ text = text' := by
  obtain ⟨hlt, rfl⟩ := List.getElem?_eq_some_iff.mp hk
  obtain ⟨hlt', rfl⟩ := List.getElem?_eq_some_iff.mp hk'
  exact h.getElem_inj_iff.symm

end ClassText

namespace CompiledPage

variable {o : Options} {loader : Loader} {resolver : Resolver} {name : String}
  {p p' : CompiledPage} {c : CheckedPage} {body : Code} {s : State}

theorem Assembled.within (h : Assembled o loader resolver name p c body s) :
    ∀ line ∈ body.lines ++ s.lines, line.Within s.charArrays := by
  rintro line hline k rfl
  have hop : Operand.charArray k ∈ (Line.plain (.write (.charArray k))).operands :=
    List.mem_singleton_self _
  rcases (h.sound.2 _ hline).1 _ hop with hwaits | hdeferred
  · exact hwaits
  · exact hdeferred.elim

theorem Assembled.within_classLines (h : Assembled o loader resolver name p c body s)
    (package className : String) :
    ∀ line ∈ classLines ⟨o, c⟩ package className body s, line.Within s.charArrays := by
  rintro line hline k rfl
  have hop : Operand.charArray k ∈ (Line.plain (.write (.charArray k))).operands :=
    List.mem_singleton_self _
  exact h.within _ (mem_lines_of_operands hline hop) k rfl

-- The class with literals is the one with arrays but for the texts.
theorem Assembled.sameProgram
    (h : Assembled (o.withStrategy .inline) loader resolver name p c
      (body.inlined s.charArrays) (s.inlined s.charArrays))
    (h' : Assembled (o.withStrategy .charArrays) loader resolver name p' c body s)
    (hdistinct : s.charArrays.Nodup) :
    SameProgram s.charArrays ⟨o.withStrategy .inline, c⟩ ⟨o.withStrategy .charArrays, c⟩
      p.package p.className (body.inlined s.charArrays) (s.inlined s.charArrays) body s where
  undeclared := List.Perm.eq_nil (perm_arrayFields p.package p.className h.writes)
  declared := perm_arrayFields p.package p.className h'.writes
  field_iff := field_iff_of_nodup hdistinct
  service := Code.exchanged_inlined fun line hline => h'.within line (List.mem_append_left _ hline)
  methods := by
    refine List.forall₂_map_left_iff.mpr (List.forall₂_same.mpr fun code hcode => ?_)
    refine Code.exchanged_inlined fun line hline => h'.within line ?_
    have hmem : line ∈ s.methods.flatMap Code.lines := List.mem_flatMap.mpr ⟨code, hcode, hline⟩
    simp [State.lines, hmem]
  deferred := by
    refine List.forall₂_map_left_iff.mpr (List.forall₂_same.mpr fun code hcode => ?_)
    cases code with
    | none => exact .none
    | some code =>
      refine .some (Code.exchanged_inlined fun line hline => h'.within line ?_)
      have hmem : line ∈ s.deferred.flatMap fun code => (code.getD []).lines :=
        List.mem_flatMap.mpr ⟨some code, hcode, hline⟩
      simp [State.lines, hmem]
  head := headLines_inlined ⟨o, c⟩ p.package p.className s
  sections := by
    refine (sections_inlined ⟨o, c⟩ p.package p.className body s).symm ▸
      List.forall₂_map_left_iff.mpr (List.forall₂_same.mpr fun sec hsec => ?_)
    refine Section.exchanged_inlined fun line hline => ?_
    exact h'.within_classLines p.package p.className line
      (List.mem_flatMap.mpr ⟨sec, List.mem_of_mem_tail hsec, hline⟩)

-- Statements that are generated for one strategy are those for the other.
theorem pageCode_inline (o : Options) (c : CheckedPage) :
    (∀ {d}, pageCode ⟨o.withStrategy .charArrays, c⟩ {} = .error d →
      pageCode ⟨o.withStrategy .inline, c⟩ {} = .error d) ∧
    ∀ {body s}, pageCode ⟨o.withStrategy .charArrays, c⟩ {} = .ok (body, s) →
      s.charArrays.Nodup ∧ pageCode ⟨o.withStrategy .inline, c⟩ {} =
        .ok (body.inlined s.charArrays, s.inlined s.charArrays) := by
  have hcode := inlines_pageCode ⟨o, c⟩
  refine ⟨fun hd => ?_, fun hr => ?_⟩
  · obtain ⟨arrays, -, hrun⟩ := hcode.error hd
    exact hrun arrays (List.prefix_refl _)
  · obtain ⟨hadds, hrun⟩ := hcode.ok hr
    exact ⟨hadds.distinct List.nodup_nil, hrun _ (List.prefix_refl _)⟩

-- A class has the name of its unit.
theorem exists_generate {o : Options} {c : CheckedPage} {body : Code} {s : State}
    (h : pageCode ⟨o, c⟩ {} = .ok (body, s)) :
    ∃ p, c.generate o = .ok p ∧
      p.package = (classOfUnit o.package
        (((c.page.tree.kind Tree.root).root?.map UnitRoot.unit).getD "")).1 ∧
      p.className = (classOfUnit o.package
        (((c.page.tree.kind Tree.root).root?.map UnitRoot.unit).getD "")).2 ∧
      p.source = (assemble (sections ⟨o, c⟩ p.package p.className body s)).1 := by
  unfold CheckedPage.generate
  dsimp only [StateT.run, Context.tree]
  rw [h]
  generalize classOfUnit o.package _ = named
  exact ⟨_, rfl, rfl, rfl, rfl⟩

-- With either strategy a page fails to compile alike, or it compiles to the same program: all its
-- statements are equal but for writes, where the constant array of one class is declared with the
-- very literal that the other one writes.
theorem literalStrategies_ofUnit (o : Options) (loader : Loader) (resolver : Resolver)
    (name : String) :
    (ofUnit (o.withStrategy .inline) loader resolver name).2 =
        (ofUnit (o.withStrategy .charArrays) loader resolver name).2 ∧
      ((∃ d, (ofUnit (o.withStrategy .inline) loader resolver name).1 = .error d ∧
          (ofUnit (o.withStrategy .charArrays) loader resolver name).1 = .error d) ∨
        ∃ p p' c body s body' s',
          (ofUnit (o.withStrategy .inline) loader resolver name).1 = .ok p ∧
          (ofUnit (o.withStrategy .charArrays) loader resolver name).1 = .ok p' ∧
          Assembled (o.withStrategy .inline) loader resolver name p c body s ∧
          Assembled (o.withStrategy .charArrays) loader resolver name p' c body' s' ∧
          p.package = p'.package ∧ p.className = p'.className ∧
          SameProgram s'.charArrays ⟨o.withStrategy .inline, c⟩ ⟨o.withStrategy .charArrays, c⟩
            p.package p.className body s body' s') := by
  cases hcheck : CheckedPage.ofUnit o loader resolver name with
  | mk checked resolver' =>
    have hchecked : ∀ l, CheckedPage.ofUnit (o.withStrategy l) loader resolver name =
        (checked, resolver') := fun l => by rw [CheckedPage.ofUnit_withStrategy, hcheck]
    simp only [ofUnit, hchecked]
    refine ⟨trivial, ?_⟩
    cases checked with
    | error d => exact .inl ⟨d, rfl, rfl⟩
    | ok c =>
      obtain ⟨herror, hok⟩ := pageCode_inline o c
      cases hcode : pageCode ⟨o.withStrategy .charArrays, c⟩ {} with
      | error d =>
        exact .inl ⟨d, (c.generate_of_pageCode _).2 (herror hcode),
          (c.generate_of_pageCode _).2 hcode⟩
      | ok r =>
        obtain ⟨body, s⟩ := r
        obtain ⟨hdistinct, hinline⟩ := hok hcode
        obtain ⟨p, hp, hpackage, hclass, hsource⟩ := exists_generate hinline
        obtain ⟨p', hp', hpackage', hclass', hsource'⟩ := exists_generate hcode
        have h : Assembled (o.withStrategy .inline) loader resolver name p c
            (body.inlined s.charArrays) (s.inlined s.charArrays) :=
          ⟨⟨resolver', hchecked .inline⟩, hinline, hsource⟩
        have h' : Assembled (o.withStrategy .charArrays) loader resolver name p' c body s :=
          ⟨⟨resolver', hchecked .charArrays⟩, hcode, hsource'⟩
        exact .inr ⟨p, p', c, _, _, body, s, hp, hp', h, h', hpackage.trans hpackage'.symm,
          hclass.trans hclass'.symm, h.sameProgram h' hdistinct⟩

-- A page that writes one text twice, and then another one.
def repeatingUnits : Loader :=
  .ofUnits [("main.page", Text.Utf8.ofString "abcd$\x7bx\x7dabcdef")]

def shortWrites : Options := { maxLiteralWrite := 4 }

theorem literalStrategies_ofUnit_repeating :
    ∃ p p' c body s body' s',
      Assembled (shortWrites.withStrategy .inline) repeatingUnits (.ofLibraries []) "main.page" p c
        body s ∧
      Assembled (shortWrites.withStrategy .charArrays) repeatingUnits (.ofLibraries []) "main.page"
        p' c body' s' ∧
      SameProgram ["abcd", "ef"] ⟨shortWrites.withStrategy .inline, c⟩
        ⟨shortWrites.withStrategy .charArrays, c⟩ p.package p.className body s body' s' ∧
      body'.lines.flatMap Line.operands = [.charArray 0,
        .evaluate "$\x7bx\x7d" "java.lang.String" none, .charArray 0, .charArray 1] := by
  have hrun : passes (shortWrites.withStrategy .charArrays) repeatingUnits (.ofLibraries [])
      "main.page" (fun _ _ body s => s.charArrays == ["abcd", "ef"] &&
        body.lines.flatMap Line.operands == [.charArray 0,
          .evaluate "$\x7bx\x7d" "java.lang.String" none, .charArray 0, .charArray 1]) = true := by
    decide +kernel
  obtain ⟨q, resolver, hq, htest⟩ := of_passes hrun
  obtain ⟨-, hresult⟩ :=
    literalStrategies_ofUnit shortWrites repeatingUnits (.ofLibraries []) "main.page"
  rcases hresult with ⟨d, -, hd⟩ | ⟨p, p', c, body, s, body', s', -, hp', h, h', -, -, hsame⟩
  · rw [hq] at hd
    cases hd
  · rw [hq] at hp'
    obtain rfl := Except.ok.inj hp'
    have hfound := htest h'
    rw [Bool.and_eq_true, beq_iff_eq, beq_iff_eq] at hfound
    rw [hfound.1] at hsame
    exact ⟨p, q, c, body, s, body', s', h, h', hsame, hfound.2⟩

end CompiledPage

end PageCompiler
