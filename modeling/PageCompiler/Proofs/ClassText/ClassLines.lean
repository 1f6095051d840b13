import PageCompiler.Proofs.ClassText.FunctionSets
import PageCompiler.Proofs.ClassText.MakingPages

namespace PageCompiler

open Text

namespace ClassText

variable {x : Context} {package name : String} {body : Code} {s : State}

theorem Tidy.mappedFunction (h : Tidy x) {calls : List FunctionUse} {f : MappedFunction}
    (hf : f ∈ FunctionMaps.mappedSet x.checked.page.bindings calls) :
    ∀ t ∈ f.className :: f.parameterTypes, Unbroken t := by
  obtain ⟨call, -, hbound⟩ := FunctionMaps.mem_mappedSet.mp hf
  obtain ⟨space, library, function, -, hlibrary, hfunction, hclass, -, htypes⟩ := hbound.found
  obtain ⟨binding, -, hkey⟩ := Option.bind_eq_some_iff.mp hlibrary
  intro t ht
  refine h.function (mem_of_lookup hkey) (List.mem_of_find?_eq_some hfunction) (t := t) ?_
  rwa [← hclass, htypes, Option.getD_some]

theorem Tidy.allImports (h : Tidy x) : ∀ i ∈ allImports x.settings, Unbroken i := by
  have hall : ∀ imports all : List String, (∀ i ∈ all, Unbroken i) →
      (∀ i ∈ imports, Unbroken i) → ∀ i ∈ imports.foldl
        (fun all i => if all.contains i then all else all ++ [i]) all, Unbroken i := by
    intro imports
    induction imports with
    | nil => exact fun _ hall _ => hall
    | cons i imports ih =>
      intro all hall himports
      obtain ⟨hi, himports⟩ := List.forall_mem_cons.mp himports
      refine ih _ ?_ himports
      dsimp only
      split
      · exact hall
      · exact List.forall_mem_append.mpr ⟨hall, List.forall_mem_singleton.mpr hi⟩
  refine hall _ _ ?_ fun i hi => h.import hi
  unfold Names.imports
  simp only [List.forall_mem_cons]
  exact ⟨.literal rfl, .literal rfl, .literal rfl, by simp⟩

theorem even_blank {lines : List Line} : Even (.blank :: lines) ↔ Even lines := by
  rw [even_cons]
  refine and_iff_right (List.forall_mem_singleton.mpr ?_)
  exact .literal rfl

theorem even_map {α : Type} {f : α → Line} {l : List α}
    (h : ∀ a ∈ l, ∀ t ∈ (f a).parts, Unbroken t) : Even (l.map f) := by
  intro line hline
  obtain ⟨a, ha, rfl⟩ := List.mem_map.mp hline
  exact h a ha

-- The packages and dependencies are quoted.
theorem unbroken_quotedList (items : List String) : Unbroken (quotedList items) := by
  refine unbroken_join (.literal rfl) fun t ht => ?_
  obtain ⟨item, -, rfl⟩ := List.mem_map.mp ht
  exact unbroken_quote item

theorem even_fieldLines (imports dependencies : List String)
    (h : ∀ functions ∈ s.functionMaps, ∀ f ∈ functions, ∀ t ∈ f.className :: f.parameterTypes,
      Unbroken t) : Even (fieldLines s imports dependencies) := by
  unfold fieldLines
  refine even_flatten.mpr ?_
  simp only [List.forall_mem_cons]
  refine ⟨?_, even_map fun entry hentry => ?_, even_map fun entry _ => ?_, by simp⟩
  · simp only [even_code, even_nil, unbroken_append, unbroken_quotedList, and_true]
    and_intros
    all_goals exact .literal rfl
  · intro t ht
    obtain ⟨f, hf, ht⟩ := List.mem_flatMap.mp ht
    exact h _ (List.of_mem_zip hentry).2 f hf t ht
  · simp [Line.parts, Statement.parts]

theorem even_poolFields {pools : List String} (h : ∀ pool ∈ pools, Unbroken pool) :
    Even (poolFields pools) := by
  unfold poolFields
  split
  · exact even_nil
  · exact even_blank.mpr (even_map fun pool hpool => List.forall_mem_singleton.mpr (h pool hpool))

theorem even_method {head : String} {lines : List Line} (hhead : Unbroken head)
    (h : Even lines) : Even (method head lines) :=
  even_append.mpr ⟨even_blank.mpr (even_block.mpr ⟨hhead, h⟩), even_close.mpr even_nil⟩

theorem even_methodLines (settings : Settings) {pools : List String}
    (h : ∀ pool ∈ pools, Unbroken pool) : Even (methodLines settings pools) := by
  have hinfo : Even (infoMethod settings.info) := by
    unfold infoMethod
    split
    · exact even_method (.literal rfl) (even_code.mpr
        ⟨.append (.append (.literal rfl) (unbroken_quote _)) (.literal rfl), even_nil⟩)
    · exact even_nil
  refine even_flatten.mpr ?_
  simp only [List.forall_mem_cons]
  exact ⟨even_method (.literal rfl) (even_code.mpr ⟨.literal rfl, even_nil⟩),
    even_method (.literal rfl) (even_code.mpr ⟨.literal rfl, even_nil⟩), hinfo,
    even_method (.literal rfl) (even_map fun pool hpool => List.forall_mem_singleton.mpr (h pool hpool)),
    even_method (.literal rfl) (even_map fun pool hpool => List.forall_mem_singleton.mpr (h pool hpool)),
    by simp⟩

theorem even_errorLines : Even errorLines := by
  unfold errorLines
  simp only [even_code, even_block, even_close, even_nil, unbroken_append, and_true]
  and_intros
  all_goals exact .literal rfl

theorem even_contextLine (settings : Settings) : Even [contextLine settings] := by
  have hpage : Unbroken ((settings.errorPage.map quote).getD "null") := by
    cases settings.errorPage with
    | none => exact .literal rfl
    | some page => exact unbroken_quote page
  have htruth : ∀ b, Unbroken (boolText b) := fun b => unbroken_ite (.literal rfl) (.literal rfl)
  unfold contextLine
  simp only [even_code, even_nil, unbroken_append, hpage, htruth, unbroken_toString, and_true]
  and_intros
  all_goals exact .literal rfl

theorem even_serviceStart (x : Context) : Even (serviceStart x) := by
  unfold serviceStart
  refine even_flatten.mpr ?_
  simp only [List.forall_mem_cons]
  refine ⟨?_, even_onlyIf even_errorLines, ?_, even_onlyIf ?_, ?_, even_onlyIf ?_, ?_,
    even_onlyIf ?_, even_blank.mpr even_nil, by simp⟩
  case refine_4 =>
    have hrest := even_contextLine x.settings
    simp only [even_cons (l := contextLine x.settings), even_code, even_block, even_blank,
      even_nil, unbroken_append, unbroken_quote, and_true] at hrest ⊢
    and_intros
    all_goals first | exact .literal rfl | exact hrest
  all_goals
    simp only [even_code, even_block, even_blank, even_nil, unbroken_append, unbroken_quote,
      and_true]
    and_intros
    all_goals exact .literal rfl

theorem even_turns {t : String} {lines : List Line} :
    Even (.turns t :: lines) ↔ Unbroken t ∧ Even lines := by
  rw [even_cons]
  simp [Line.parts]

theorem even_serviceEnd : Even serviceEnd := by
  unfold serviceEnd
  simp only [even_code, even_block, even_close, even_turns, even_nil, unbroken_append, and_true]
  and_intros
  all_goals exact .literal rfl

theorem even_helperStart : Even helperStart := by
  unfold helperStart
  simp only [even_code, even_block, even_blank, even_close, even_nil, unbroken_append, and_true]
  and_intros
  all_goals exact .literal rfl

theorem even_helperEnd (count : Nat) : Even (helperEnd count) := by
  have hcases : Even ((List.range count).flatMap caseLines) := by
    intro line hline
    obtain ⟨number, -, hline⟩ := List.mem_flatMap.mp hline
    refine (?_ : Even (caseLines number)) line hline
    refine even_cons.mpr ⟨by simp [Line.parts, Statement.parts], even_cons.mpr
      ⟨List.forall_mem_singleton.mpr ?_, even_cons.mpr
        ⟨List.forall_mem_singleton.mpr (.literal rfl), even_nil⟩⟩⟩
    exact .append (.append (.literal rfl) (unbroken_toString number)) (.literal rfl)
  unfold helperEnd
  refine even_flatten.mpr ?_
  simp only [List.forall_mem_cons]
  refine ⟨?_, hcases, ?_, by simp⟩
  all_goals
    simp only [even_code, even_block, even_blank, even_close, even_turns, even_nil, unbroken_append,
      and_true]
    and_intros
    all_goals exact .literal rfl

theorem unbroken_classOfUnit {base : String} (h : Unbroken base) (unit : String) :
    Unbroken (classOfUnit base unit).1 ∧ Unbroken (classOfUnit base unit).2 := by
  have hpackage : ∀ (dirs : List String) (base : String), Unbroken base →
      Unbroken (dirs.foldl (fun p dir => p ++ "." ++ identifier dir) base) := by
    intro dirs
    induction dirs with
    | nil => exact fun _ h => h
    | cons dir dirs ih =>
      exact fun base h => ih _ (.append (.append h (.literal rfl)) (unbroken_identifier dir))
  unfold classOfUnit
  dsimp only
  exact ⟨hpackage _ base h, unbroken_identifier _⟩

theorem even_classHead (h : Tidy x) (hname : Unbroken name) :
    Even [classHead x.settings name] := by
  have hsuper : Unbroken (x.settings.superclass.getD Names.pageBase) := by
    cases hs : x.settings.superclass with
    | none => exact .literal rfl
    | some t => exact h.superclass hs
  have hinterfaces : Unbroken
      (if x.settings.threadSafe then "" else ", jakarta.servlet.SingleThreadModel") :=
    unbroken_ite (.literal rfl) (.literal rfl)
  unfold classHead
  simp only [even_block, even_nil, unbroken_append, hname, hsuper, hinterfaces, and_true]
  and_intros
  all_goals exact .literal rfl

theorem mem_poolNames {pool : String} : pool ∈ poolNames s ↔ pool ∈ s.pools := by
  unfold poolNames
  exact List.mem_mergeSort

theorem even_headLines (h : Tidy x) (hpackage : Unbroken package) (hname : Unbroken name)
    (hfunctions : ∀ functions ∈ s.functionMaps, ∀ f ∈ functions,
      ∀ t ∈ f.className :: f.parameterTypes, Unbroken t)
    (hpools : ∀ pool ∈ poolNames s, Unbroken pool) : Even (headLines x package name s) := by
  unfold headLines
  refine even_flatten.mpr ?_
  simp only [List.forall_mem_cons]
  refine ⟨even_code.mpr ⟨.append (.append (.literal rfl) hpackage) (.literal rfl),
    even_blank.mpr even_nil⟩, even_map fun i hi => List.forall_mem_singleton.mpr ?_,
    even_blank.mpr (even_classHead h hname), even_fieldLines _ _ hfunctions,
    even_poolFields hpools, by simp⟩
  exact .append (.append (.literal rfl) (h.allImports i hi)) (.literal rfl)

theorem even_code_lines {code : Code} (h : ∀ stretch ∈ code, Even stretch.lines) :
    Even code.lines := by
  intro line hline
  obtain ⟨stretch, hstretch, hline⟩ := List.mem_flatMap.mp hline
  exact h stretch hstretch line hline

theorem even_deferredSections {number : Nat} {code : Option Code}
    (h : ∀ stretch ∈ code.getD [], Even stretch.lines) :
    ∀ part ∈ deferredSections number code, Even part.lines := by
  unfold deferredSections
  simp only [List.forall_mem_cons]
  refine ⟨?_, even_code_lines h, even_code.mpr ⟨.literal rfl, even_close.mpr even_nil⟩, by simp⟩
  refine even_blank.mpr (even_cons.mpr ⟨by simp [Line.parts, Head.parts], even_code.mpr
    ⟨?_, even_nil⟩⟩)
  simp only [unbroken_append]
  and_intros
  all_goals exact .literal rfl

theorem even_helperSections {deferred : List (Option Code)}
    (h : ∀ code ∈ deferred, ∀ stretch ∈ code.getD [], Even stretch.lines) :
    ∀ part ∈ helperSections deferred, Even part.lines := by
  unfold helperSections
  split
  · simp
  · refine List.forall_mem_append.mpr ⟨List.forall_mem_cons.mpr ⟨even_helperStart, ?_⟩,
      List.forall_mem_singleton.mpr (even_helperEnd _)⟩
    intro part hpart
    obtain ⟨⟨number, code⟩, hentry, hpart⟩ := List.mem_flatMap.mp hpart
    exact even_deferredSections (h code (List.of_mem_zip hentry).2) part hpart

theorem stretches_declarationSections (code : Code) :
    (declarationSections code).flatMap Section.stretches = code := by
  unfold declarationSections
  split
  · rename_i hempty
    rw [List.isEmpty_iff.mp hempty]
    rfl
  · simp [Section.stretches]

theorem stretches_helperSections (deferred : List (Option Code)) :
    (helperSections deferred).flatMap Section.stretches =
      deferred.flatMap fun code => code.getD [] := by
  have hentries : ∀ entries : List (Nat × Option Code),
      (entries.flatMap fun entry => deferredSections entry.1 entry.2).flatMap
        Section.stretches = (entries.map Prod.snd).flatMap fun code => code.getD [] := by
    intro entries
    induction entries with
    | nil => rfl
    | cons entry entries ih =>
      rw [List.flatMap_cons, List.flatMap_append, ih, List.map_cons, List.flatMap_cons]
      simp [deferredSections, Section.stretches]
  unfold helperSections
  split
  · rename_i hempty
    rw [List.isEmpty_iff.mp hempty]
    rfl
  · rw [List.cons_append, List.flatMap_cons, List.flatMap_append, hentries,
      List.map_snd_zip (by simp)]
    simp [Section.stretches]

-- The stretches of the sections are those of the page.
theorem mem_stretches_sections {stretch : Stretch} :
    stretch ∈ (sections x package name body s).flatMap Section.stretches ↔
      stretch ∈ body ++ s.stretches := by
  have hmethods : (s.methods.map (Section.code 1)).flatMap Section.stretches =
      s.methods.flatten := by
    rw [List.flatMap_map, List.flatten_eq_flatMap]
    rfl
  have hall : (sections x package name body s).flatMap Section.stretches =
      s.declarations ++ body ++ s.methods.flatten ++ s.deferred.flatMap fun code => code.getD [] := by
    simp [sections, Section.stretches, stretches_declarationSections, stretches_helperSections,
      hmethods]
  rw [hall, State.stretches]
  simp only [List.mem_append, or_assoc, or_left_comm]

-- As long as the page is tidy, no line of its class holds a line feed.
theorem even_classLines (h : Tidy x) (hpackage : Unbroken package) (hname : Unbroken name)
    (hfunctions : ∀ functions ∈ s.functionMaps, ∀ f ∈ functions,
      ∀ t ∈ f.className :: f.parameterTypes, Unbroken t)
    (hpools : ∀ pool ∈ s.pools, Unbroken pool)
    (hcode : ∀ stretch ∈ body ++ s.stretches, Even stretch.lines) :
    Even (classLines x package name body s) := by
  have hnames : ∀ pool ∈ poolNames s, Unbroken pool := fun pool hpool =>
    hpools pool (mem_poolNames.mp hpool)
  unfold State.stretches at hcode
  simp only [List.forall_mem_append] at hcode
  obtain ⟨hbody, ⟨hdeclarations, hmethods⟩, hdeferred⟩ := hcode
  have hdeclarations : ∀ part ∈ declarationSections s.declarations, Even part.lines := by
    unfold declarationSections
    split
    · simp
    · simp only [List.forall_mem_cons]
      exact ⟨even_blank.mpr even_nil, even_code_lines hdeclarations, by simp⟩
  have hservice : ∀ part ∈ [.own (methodLines x.settings (poolNames s)), .own (serviceStart x),
      .code 3 body, .own serviceEnd], Even (Section.lines part) := by
    simp only [List.forall_mem_cons]
    exact ⟨even_methodLines _ hnames, even_serviceStart x, even_code_lines hbody, even_serviceEnd,
      by simp⟩
  have hmethods : ∀ part ∈ s.methods.map (.code 1), Even (Section.lines part) := by
    intro part hpart
    obtain ⟨code, hcode, rfl⟩ := List.mem_map.mp hpart
    exact even_code_lines fun stretch hstretch =>
      hmethods stretch (List.mem_flatten.mpr ⟨code, hcode, hstretch⟩)
  have hhelper := even_helperSections fun code hcode stretch hstretch =>
    hdeferred stretch (List.mem_flatMap.mpr ⟨code, hcode, hstretch⟩)
  intro line hline
  obtain ⟨part, hpart, hline⟩ := List.mem_flatMap.mp hline
  obtain ⟨group, hgroup, hpart⟩ := List.mem_flatten.mp hpart
  refine (?_ : ∀ part ∈ group, Even part.lines) part hpart line hline
  simp only [List.mem_cons, List.not_mem_nil, or_false] at hgroup
  rcases hgroup with rfl | rfl | rfl | rfl | rfl | rfl
  · exact List.forall_mem_singleton.mpr (even_headLines h hpackage hname hfunctions hnames)
  · exact hdeclarations
  · exact hservice
  · exact hmethods
  · exact hhelper
  · exact List.forall_mem_singleton.mpr (even_close.mpr even_nil)

end ClassText

open ClassText

theorem ClassText.assemble_eq (sections : List Section) :
    assemble sections =
      (String.join (assembleFrom 0 1 sections).1, ⟨(assembleFrom 0 1 sections).2⟩) := by
  rfl

-- How the class of a page and its line map have come about.
structure CompiledPage.Mapped (o : Options) (loader : Loader) (resolver : Resolver)
    (name : String) (p : CompiledPage) (c : CheckedPage) (body : Code) (s : State) : Prop extends
    CompiledPage.Assembled o loader resolver name p c body s where
  lineMap_eq : p.lineMap = (assemble (sections ⟨o, c⟩ p.package p.className body s)).2
  named : ∃ unit, (p.package, p.className) = classOfUnit o.package unit

theorem CompiledPage.exists_mapped {o : Options} {loader : Loader}
    {resolver resolver' : Resolver} {name : String} {p : CompiledPage}
    (h : CompiledPage.ofUnit o loader resolver name = (.ok p, resolver')) :
    ∃ c body s, Mapped o loader resolver name p c body s := by
  unfold CompiledPage.ofUnit at h
  cases hcheck : CheckedPage.ofUnit o loader resolver name with
  | mk checked r =>
    rw [hcheck] at h
    obtain ⟨c, hc, hgenerate⟩ := Checking.bind_eq_ok.mp (Prod.mk.inj h).1
    subst hc
    obtain ⟨body, s, hcode, hsource⟩ := CheckedPage.generate_eq_ok hgenerate
    refine ⟨c, body, s, ⟨⟨r, hcheck⟩, hcode, hsource⟩, ?_, ?_⟩
    · unfold CheckedPage.generate at hgenerate
      simp only [StateT.run, hcode] at hgenerate
      rw [← Except.ok.inj hgenerate]
    · unfold CheckedPage.generate at hgenerate
      simp only [StateT.run, hcode] at hgenerate
      generalize hnames : classOfUnit _ _ = names at hgenerate
      obtain ⟨package, className⟩ := names
      rw [← Except.ok.inj hgenerate]
      exact ⟨_, hnames.symm⟩

namespace CompiledPage.Mapped

variable {o : Options} {loader : Loader} {resolver : Resolver} {name : String} {p : CompiledPage}
  {c : CheckedPage} {body : Code} {s : State} (h : Mapped o loader resolver name p c body s)
include h

theorem made (n : NodeId) : Made ⟨o, c⟩ n (Visits ⟨o, c⟩ n ∧ Speaks ⟨o, c⟩ n) [] {} body s :=
  h.annotated.made_pageCode n h.generated

theorem owned : ∀ stretch ∈ body ++ s.stretches, Owned ⟨o, c⟩ stretch := fun stretch hmem =>
  ((h.made Tree.root).made stretch hmem).resolve_left (by simp [State.stretches])

theorem unbroken (htidy : Tidy ⟨o, c⟩) :
    ∀ line ∈ classLines ⟨o, c⟩ p.package p.className body s, Unbroken line.text := by
  have hregular := (h.made Tree.root).regular
  have hfunctions : ∀ functions ∈ s.functionMaps, ∀ f ∈ functions,
      ∀ t ∈ f.className :: f.parameterTypes, Unbroken t := by
    intro functions hmem f hf
    obtain ⟨-, source, calls, -, rfl⟩ := h.sound.1.functions functions hmem
    exact htidy.mappedFunction hf
  obtain ⟨hpackage, hclass⟩ : Unbroken p.package ∧ Unbroken p.className := by
    obtain ⟨unit, hnamed⟩ := h.named
    have hnames := unbroken_classOfUnit htidy.package unit
    rwa [← hnamed] at hnames
  exact (even_classLines htidy hpackage hclass hfunctions hregular.pools fun stretch hmem =>
    (h.owned stretch hmem).even htidy).unbroken

theorem entries_eq : p.lineMap.entries =
    (placedFrom 1 (sections ⟨o, c⟩ p.package p.className body s)).flatMap fun place =>
      place.2.entries place.1 := by
  rw [h.lineMap_eq, assemble_eq]
  exact entries_assembleFrom 0 1 _

theorem source_eq_join : p.source =
    String.join (assembleFrom 0 1 (sections ⟨o, c⟩ p.package p.className body s)).1 := by
  rw [h.source_eq, assemble_eq]

end CompiledPage.Mapped

-- What the generator prints counts as one line each. This is right, for the class as a whole and in
-- each part of it at any time, exactly if no line that is printed holds a line feed. Then every
-- stretch stands where it is said to start, so that its entries name the lines that were written
-- for it. All this is so as long as the page is tidy.
theorem CompiledPage.lineNumbers_ofUnit {o : Options} {loader : Loader}
    {resolver resolver' : Resolver} {name : String} {p : CompiledPage}
    (h : CompiledPage.ofUnit o loader resolver name = (.ok p, resolver')) :
    ∃ c body s, Mapped o loader resolver name p c body s ∧
      let parts := sections ⟨o, c⟩ p.package p.className body s
      let lines := classLines ⟨o, c⟩ p.package p.className body s
      (Tidy ⟨o, c⟩ → ∀ line ∈ lines, Unbroken line.text) ∧
      ((∀ line ∈ lines, Unbroken line.text) ↔ countNewlines p.source.toList = lines.length) ∧
      ((∀ line ∈ lines, Unbroken line.text) →
        (∀ part ∈ parts, ∀ written, written <+: part.lines → ∀ indent,
          countNewlines (String.join (renderLines indent written).1).toList = written.length) ∧
        p.lineMap.entries = (placedFrom 1 parts).flatMap (fun place => place.2.entries place.1) ∧
        ∀ place ∈ placedFrom 1 parts, ∃ before depth behind,
          p.source = before ++ String.join (renderLines depth place.2.lines).1 ++ behind ∧
            1 + countNewlines before.toList = place.1 ∧
            countNewlines (String.join (renderLines depth place.2.lines).1).toList =
              place.2.lines.length) := by
  obtain ⟨c, body, s, hmapped⟩ := exists_mapped h
  refine ⟨c, body, s, hmapped, ?_⟩
  intro parts lines
  refine ⟨hmapped.unbroken, ?_, fun hunbroken => ⟨fun part hpart written hwritten indent => ?_,
    hmapped.entries_eq, fun place hplace => ?_⟩⟩
  · rw [hmapped.source_eq_join]
    exact countNewlines_assembleFrom_eq_iff.symm
  · refine countNewlines_renderLines_eq_iff.mpr fun line hline => hunbroken line ?_
    exact List.mem_flatMap.mpr ⟨part, hpart, hwritten.subset hline⟩
  · obtain ⟨before, depth, behind, hsource, hstart⟩ := exists_written (d := 0) hunbroken hplace
    refine ⟨before, depth, behind, hmapped.source_eq_join.trans hsource, hstart, ?_⟩
    refine countNewlines_renderLines_eq_iff.mpr fun line hline => hunbroken line ?_
    obtain ⟨⟨part, hpart, hmem⟩, -⟩ := mem_placedFrom (d := 0) hplace
    exact List.mem_flatMap.mpr ⟨part, hpart, part.lines_subset hmem hline⟩

-- A page that includes another one whose address is code of two lines.
def brokenUnits : Loader :=
  .ofUnits [("main.page", Utf8.ofString "<jsp:include page=\"<%= a\n+ b %>\"/>behind")]

-- The statement for it holds a line feed, and so the lines behind it are counted wrongly.
theorem CompiledPage.lineNumbers_ofUnit_broken :
    ∃ p resolver c body s, CompiledPage.ofUnit {} brokenUnits (.ofLibraries []) "main.page" =
        (.ok p, resolver) ∧
      Mapped {} brokenUnits (.ofLibraries []) "main.page" p c body s ∧ ¬Tidy ⟨{}, c⟩ ∧
      countNewlines p.source.toList ≠ (classLines ⟨{}, c⟩ p.package p.className body s).length ∧
      p.lineMap.entries.map LineEntry.source = [1, 2] := by
  have hrun : passes {} brokenUnits (.ofLibraries []) "main.page" (fun p _ body _ =>
      p.lineMap.entries.map LineEntry.source == [1, 2] &&
        body.lines.any fun line => !decide (Unbroken line.text)) = true := by
    rw [brokenUnits, Utf8.ofString_ofList]
    decide +kernel
  obtain ⟨p, resolver, hp, htest⟩ := of_passes hrun
  obtain ⟨c, body, s, hmapped, htidy, hcount, -⟩ := lineNumbers_ofUnit hp
  have htest := htest hmapped.toAssembled
  simp only [Bool.and_eq_true, beq_iff_eq, List.any_eq_true, Bool.not_eq_true',
    decide_eq_false_iff_not] at htest
  obtain ⟨hsources, line, hline, hbroken⟩ := htest
  have hmem : line ∈ classLines ⟨{}, c⟩ p.package p.className body s :=
    List.mem_flatMap.mpr ⟨.code 3 body, by simp [sections], hline⟩
  exact ⟨p, resolver, c, body, s, hp, hmapped, fun h => hbroken (htidy h line hmem), fun h =>
    hbroken (hcount.mpr h line hmem), hsources⟩

end PageCompiler
