import PageCompiler.Proofs.Reading.DocumentFaults
import PageCompiler.Proofs.Reading.PageStages
import PageCompiler.Proofs.Reading.UnitFaults

-- A unit that is read once more has the same text, so that texts at hand stay as they are; what a
-- page that has been read points at is at hand.
namespace PageCompiler

open Text

-- A unit is found with the text that has been put in last.
theorem Sources.find?_insert (sources : Sources) (unit text name : String) :
    (sources.insert unit text).find? name =
      if name = unit then some text else sources.find? name := by
  unfold find? insert
  rw [List.lookup_cons]
  by_cases hname : name = unit
  · simp [hname]
  · rw [if_neg hname, beq_false_of_ne hname]
    dsimp only
    induction sources with
    | nil => rfl
    | cons entry sources ih =>
      by_cases hentry : entry.1 = unit
      · have hne : name ≠ entry.1 := hentry ▸ hname
        rw [List.filter_cons_of_neg (by simp [hentry]), ih, List.lookup_cons,
          beq_false_of_ne hne]
      · rw [List.filter_cons_of_pos (by simp [hentry]), List.lookup_cons, List.lookup_cons, ih]

namespace Builder

variable {o : Options} {loader : Loader} {marks : Mark → Prop} {b : Builder} {data : UnitRoot}
  {text : List Char}

-- A unit that can be pointed at has the text that it is loaded with.
theorem Sound.find?_eq (h : b.Sound o loader) (hloaded : Page.Loaded o loader data text)
    (hcovers : b.tree.sources.Covers (.start data.unit)) :
    b.tree.sources.find? data.unit = some (String.ofList text) := by
  obtain ⟨found, hfound, -⟩ := hcovers
  obtain ⟨data', chars, hloaded', hunit, rfl⟩ := h.loaded hfound
  obtain ⟨rfl, -⟩ := hloaded.unique hloaded' hunit
  exact hfound

theorem reports_addSource (hloaded : Page.Loaded o loader data text) :
    Reports o loader marks (modifyTree (·.addSource data.unit (String.ofList text))) := by
  refine fun b hsound _ => ⟨?_, ?_⟩
  · rintro a b' ⟨⟩
    have hkept : ∀ {unit found : String}, b.tree.sources.find? unit = some found →
        (b.tree.sources.insert data.unit (String.ofList text)).find? unit = some found := by
      intro unit found hfound
      rw [Sources.find?_insert]
      split
      · rename_i hunit
        obtain ⟨data', chars, hloaded', hunit', rfl⟩ := hsound.loaded hfound
        obtain ⟨rfl, -⟩ := hloaded.unique hloaded' (hunit'.trans hunit)
        rfl
      · exact hfound
    have hretains : b.Retains
        { b with tree := b.tree.addSource data.unit (String.ofList text) } :=
      ⟨Nat.le_refl _, hkept⟩
    refine ⟨⟨hsound.wellFormed.step (.addSource ..), fun {unit found} hfound => ?_,
      fun id hid => (hsound.node id hid).mono fun _ => hretains.covers,
      fun entry hentry => hretains.covers (hsound.binding entry hentry)⟩, hretains⟩
    have hfound : (b.tree.sources.insert data.unit (String.ofList text)).find? unit = some found :=
      hfound
    rw [Sources.find?_insert] at hfound
    split at hfound
    · rename_i hunit
      cases hfound
      exact ⟨data, text, hloaded, hunit.symm, rfl⟩
    · exact hsound.loaded hfound
  · rintro d b' ⟨⟩

end Builder

-- A tree of which every node, with its attributes, is at hand to be pointed at.
structure Tree.Covered (t : Tree) : Prop where
  wellFormed : t.WellFormed
  node : ∀ id < t.size, (t.node id).Marked t.sources.Covers

namespace Page

open Builder

variable {o : Options} {loader : Loader} {marks : Mark → Prop} {data : UnitRoot} {text : List Char}

-- The root of a unit is marked at its start, which is at hand when the text is.
theorem reports_enterUnit (parent : NodeId) (target : String) (origin : UnitOrigin) {mark : Mark}
    (hmark : marks mark) :
    Reports o loader marks (enterUnit o loader parent target origin mark) := by
  unfold enterUnit
  refine .bind .get fun b => .bind .get fun b₁ => ?_
  dsimp only
  generalize UnitName.resolve (b.units.head?.getD mark.unit) target = name
  split
  · exact reports_fail_bind _ rfl hmark _
  refine .bind_ok (reports_placeError hmark (loader.failing_load name)) fun bytes _ _ hbytes => ?_
  refine .bind_ok (reports_placeError hmark (Encoding.failing_decode name bytes _ _))
    fun decoded _ _ hdecoded => ?_
  have hloaded : Loaded o loader
      { unit := name, form := .choose name decoded.text o.forceStrict, origin
        encoding := decoded.encoding, parentRoot := none } decoded.text :=
    ⟨⟨bytes, (placeError_eq_ok hbytes).1, (placeError_eq_ok hdecoded).1⟩, rfl⟩
  intro b hsound hmarks
  refine (reports_addSource hloaded b hsound hmarks).bind fun _ b₁ h hsound₁ _ => ?_
  cases h
  have hfound : (b.tree.addSource name (String.ofList decoded.text)).sources.find? name =
      some (String.ofList decoded.text) :=
    (Sources.find?_insert ..).trans (if_pos rfl)
  have hstart : (Mark.start name).LiesIn name decoded.text := ⟨rfl, Nat.zero_le _⟩
  refine (show Reports o loader (Mark.LiesIn name decoded.text) _ from ?_) _ hsound₁ fun _ =>
    Sources.covers_of_liesIn hfound
  exact .bind (reports_addDependency _) fun _ => .bind .get fun _ =>
    .bind (reports_append (marked_of_mark hstart rfl) rfl) fun _ => .pure _

-- What reading a loaded unit under its root comes to, when its text is at hand.
def ReadsReports (o : Options) (loader : Loader) (reader : UnitReader) : Prop :=
  ∀ {root : NodeId} {data : UnitRoot} {text : List Char} {b : Builder}, Loaded o loader data text →
    b.Sound o loader → b.tree.sources.find? data.unit = some (String.ofList text) →
      b.Holds data root → ReportsAt o loader (reader root data.unit text data.form) b

theorem includesReports {reader : UnitReader} (hr : ReadsReports o loader reader) :
    IncludesReports o loader (includeUnit o loader reader) := by
  intro marks parent target origin mark hmark b hsound hmarks
  unfold includeUnit
  refine (reports_enterUnit parent target origin hmark b hsound hmarks).bind
    fun found b₁ henter hsound₁ hretains => ?_
  obtain ⟨root, unit, text, form⟩ := found
  obtain ⟨-, -, data, b₀, hloaded, rfl, rfl, -, -, happend⟩ := enterUnit_eq_ok henter
  have hhost : b₁.tree.Hosts root := hosts_append happend (by simp)
  have hstart : b₁.tree.sources.Covers (.start data.unit) := by
    have hmark := (hsound₁.node root hhost.1).1
    obtain ⟨rfl, rfl⟩ := append_eq_ok happend
    rwa [Tree.node_append_last] at hmark
  exact (hr hloaded hsound₁ (hsound₁.find?_eq hloaded hstart) fun _ => hhost).bind_reports
    (fun m hm => hretains.covers (hmarks m hm)) fun _ => .pure root

theorem readsReports_readLevel {inner : UnitReader} (hinner : ReadsReports o loader inner)
    (hstages : ReadsStages o loader inner) :
    ReadsReports o loader (readLevel o loader inner) := by
  intro root data text b hloaded hsound hfound hheld
  have hi : IncludesReports o loader (includeUnit o loader inner) := includesReports hinner
  have hs : IncludesStages (Loaded o loader) (includeUnit o loader inner) :=
    includeUnit_stages hstages
  have hunits : ∀ names : List String,
      Reports o loader (Mark.LiesIn data.unit text) (modify fun b => { b with units := names }) :=
    fun _ => .of_modify (fun _ => rfl) fun _ => rfl
  have hplace : ∀ m, m.LiesIn data.unit text → b.tree.sources.Covers m := fun _ =>
    Sources.covers_of_liesIn hfound
  unfold readLevel
  refine (Reports.get b hsound hplace).bind fun _ _ hget _ _ => ?_
  cases hget
  refine (hunits _ b hsound hplace).bind fun _ b₁ henter hsound₁ _ => ?_
  cases henter
  cases hform : data.form with
  | relaxed =>
    exact (Relaxed.reportsAt_read hi hs hloaded hform hsound₁ hplace hheld).bind_reports hplace
      fun _ => hunits _
  | strict =>
    have hx : Strict.Context.Reads
        { root, unit := data.unit, text, keepBlanks := o.preserveXmlWhitespace
          includeUnit := includeUnit o loader inner } (Loaded o loader) data :=
      ⟨hs, rfl, hform, hloaded⟩
    exact (Strict.reports_readDocument hi hx _ hsound₁ hplace).bind_reports hplace fun _ => hunits _

-- By induction on how deep units may still include each other.
theorem readsReports_readUnit (o : Options) (loader : Loader) (depth : Nat) :
    ReadsReports o loader (readUnit o loader depth) := by
  induction depth with
  | zero =>
    intro root data text b hloaded hsound hfound hheld
    have hstart : (Mark.start data.unit).LiesIn data.unit text := ⟨rfl, Nat.zero_le _⟩
    exact reports_invalidDirective _ hstart b hsound fun _ => Sources.covers_of_liesIn hfound
  | succ depth ih => exact readsReports_readLevel ih (readUnit_stages o loader depth)

-- Units put in front of or behind the page are asked for from the start of the outermost one.
theorem reports_readAround {reader : UnitReader} (hr : ReadsReports o loader reader)
    (origin : UnitOrigin) (names : List String) {mark : Mark} (hmark : marks mark) :
    Reports o loader marks (forIn names PUnit.unit fun name _ => do
      discard (includeUnit o loader reader Tree.root name origin mark)
      pure (ForInStep.yield PUnit.unit) : BuildM PUnit) :=
  .forIn (fun name _ _ => .bind (.discard (includesReports hr Tree.root name origin hmark)) fun _ =>
    .pure _) _

theorem reportsAt_readUnits {reader : UnitReader} (hr : ReadsReports o loader reader)
    (hstages : ReadsStages o loader reader) {b : Builder} (hloaded : Loaded o loader data text)
    (hsound : b.Sound o loader) (hfound : b.tree.sources.find? data.unit = some (String.ofList text))
    (hhost : b.tree.Hosts Tree.root) :
    ReportsAt o loader (readUnits o loader reader data.unit text data.form) b := by
  have hstart : (Mark.start data.unit).LiesIn data.unit text := ⟨rfl, Nat.zero_le _⟩
  have hplace : ∀ m, m.LiesIn data.unit text → b.tree.sources.Covers m := fun _ =>
    Sources.covers_of_liesIn hfound
  unfold readUnits
  refine (reports_readAround hr .prelude o.prelude hstart b hsound hplace).bind
    fun _ b₁ hprelude hsound₁ hretains => ?_
  have hhost₁ := hhost.of_extends (forIn_stages hstages hhost hprelude).extends
  have hunit := hr hloaded hsound₁ (hretains.find?_eq hfound) fun _ => hhost₁
  exact hunit.bind_reports (fun m hm => hretains.covers (hplace m hm)) fun _ =>
    .bind (reports_readAround hr .coda o.coda hstart) fun _ => .pure _

-- A prefix has been bound at a place that is at hand.
theorem reports_finish : Reports o loader marks finish := by
  unfold finish
  refine .get_bind fun b hsound _ => ?_
  refine .bind (.forIn (fun entry hentry _ => ?_) _) fun _ => .bind .get fun _ => .pure _
  have hmem : entry ∈ b.bindings.bound := (List.mergeSort_perm ..).mem_iff.mp hentry
  exact .bind (.discard (reports_libraryOf _ (hsound.binding entry hmem))) fun _ => .pure _

-- A page of which everything that can be pointed at is at hand.
structure Covered (p : Page) : Prop where
  tree : p.tree.Covered
  binding : ∀ entry ∈ p.bindings.bound, p.tree.sources.Covers entry.2.mark

theorem covered_of_finish {b b' : Builder} {page : Page} (h : finish b = .ok page b')
    (hsound : b'.Sound o loader) :
    page.Covered ∧ page.tree.sources = b'.tree.sources := by
  unfold finish at h
  obtain ⟨_, _, hget, h⟩ := BuildM.bind_eq_ok.mp h
  cases hget
  obtain ⟨_, b₁, -, h⟩ := BuildM.bind_eq_ok.mp h
  obtain ⟨_, _, hget, h⟩ := BuildM.bind_eq_ok.mp h
  cases hget
  cases h
  dsimp only
  split
  · have hsources := Tree.sources_prune b'.tree
    have halike := alike_prune b'.tree
    refine ⟨⟨⟨(grows_prune b'.tree).keeps Tree.WellFormed.step hsound.wellFormed,
      fun id hid => ?_⟩, ?_⟩, hsources⟩
    · dsimp only at hid ⊢
      rw [hsources]
      rw [halike.size_eq] at hid
      exact (hsound.node id hid).of_alike (halike.node id)
    · dsimp only
      rw [hsources]
      exact hsound.binding
  · exact ⟨⟨⟨hsound.wellFormed, hsound.node⟩, hsound.binding⟩, rfl⟩

-- The root and the text of the outermost unit, when it can be loaded and decoded.
def outermost (o : Options) (loader : Loader) (name : String) :
    Except Diagnostic (UnitRoot × List Char) := do
  let unit := UnitName.normalize name
  let bytes ← loader.load unit
  let decoded ← Encoding.decode unit bytes o.pageEncoding o.defaultEncoding
  let form := UnitForm.choose unit decoded.text o.forceStrict
  return ({ unit, form, origin := .page, encoding := decoded.encoding, parentRoot := none },
    decoded.text)

-- How reading the page behind its outermost unit ends.
def ending (o : Options) (loader : Loader) (resolver : Resolver) (main : UnitRoot × List Char) :
    EStateM.Result Diagnostic Builder Page :=
  readAll o loader (readUnit o loader (loader.capacity + 1)) main.1.unit main.2 main.1.form
    (ofOptions o (.ofRoot main.1 (String.ofList main.2)) resolver)

theorem read_eq (o : Options) (loader : Loader) (resolver : Resolver) (name : String) :
    read o loader resolver name =
      match outermost o loader name with
      | .error d => (.error d, resolver)
      | .ok main =>
        match ending o loader resolver main with
        | .ok page b => (.ok page, b.resolver)
        | .error d b => (.error d, b.resolver) := by
  unfold read readWith outermost
  dsimp only
  cases loader.load (UnitName.normalize name) with
  | error d => rfl
  | ok bytes =>
    dsimp only [Bind.bind, Except.bind]
    cases Encoding.decode (UnitName.normalize name) bytes o.pageEncoding o.defaultEncoding with
    | error d => rfl
    | ok decoded =>
      dsimp only [Pure.pure, Except.pure]
      unfold ending EStateM.run
      rfl

theorem loaded_of_outermost {name : String} {main : UnitRoot × List Char}
    (h : outermost o loader name = .ok main) : Loaded o loader main.1 main.2 := by
  obtain ⟨bytes, hload, h⟩ := Checking.bind_eq_ok.mp h
  obtain ⟨decoded, hdecode, h⟩ := Checking.bind_eq_ok.mp h
  cases h
  exact ⟨⟨bytes, hload, hdecode⟩, rfl⟩

-- The texts that are at hand when reading the page ends, with the page or at a failure.
def textsRead (o : Options) (loader : Loader) (resolver : Resolver) (name : String) : Sources :=
  match outermost o loader name with
  | .error _ => []
  | .ok main =>
    match ending o loader resolver main with
    | .ok _ b | .error _ b => b.tree.sources

theorem sound_ofRoot (hloaded : Loaded o loader data text) (resolver : Resolver) :
    (ofOptions o (.ofRoot data (String.ofList text)) resolver).Sound o loader := by
  have hsources : (ofOptions o (.ofRoot data (String.ofList text)) resolver).tree.sources =
      Sources.insert [] data.unit (String.ofList text) := rfl
  refine ⟨Tree.wellFormed_ofRoot .., fun {unit found} hfound => ?_, fun id hid => ?_,
    fun _ hentry => nomatch hentry⟩
  · rw [hsources, Sources.find?_insert] at hfound
    split at hfound
    · rename_i hunit
      cases hfound
      exact ⟨data, text, hloaded, hunit.symm, rfl⟩
    · cases hfound
  · obtain rfl : id = 0 := Nat.lt_one_iff.mp hid
    have hstart : (Mark.start data.unit).LiesIn data.unit text := ⟨rfl, Nat.zero_le _⟩
    refine marked_of_mark (Sources.covers_of_liesIn ?_ hstart) rfl
    rw [hsources, Sources.find?_insert, if_pos rfl]

-- However reading ends, the texts at hand are those of loaded units; a failure points into them,
-- and so does everything in a page.
theorem reportsAt_readAll (hloaded : Loaded o loader data text) (resolver : Resolver) :
    ReportsAt o loader (readAll o loader (readUnit o loader (loader.capacity + 1)) data.unit text
      data.form) (ofOptions o (.ofRoot data (String.ofList text)) resolver) := by
  rw [readAll_eq]
  have hfound : (Sources.insert [] data.unit (String.ofList text)).find? data.unit =
      some (String.ofList text) := by rw [Sources.find?_insert, if_pos rfl]
  have hunits := reportsAt_readUnits (readsReports_readUnit o loader (loader.capacity + 1))
    (readUnit_stages o loader _) hloaded (sound_ofRoot hloaded resolver) hfound
    (hosts_ofRoot o data _ resolver)
  exact hunits.bind fun _ b _ hsound _ => reports_finish b hsound fun _ h => h

variable {resolver resolver' : Resolver} {name : String} {main : UnitRoot × List Char}

theorem loaded_textsRead {unit text : String}
    (h : (textsRead o loader resolver name).find? unit = some text) :
    ∃ data chars, Loaded o loader data chars ∧ data.unit = unit ∧ text = String.ofList chars := by
  unfold textsRead at h
  cases hmain : outermost o loader name with
  | error d =>
    rw [hmain] at h
    cases h
  | ok main =>
    have hread := reportsAt_readAll (loaded_of_outermost hmain) resolver
    rw [hmain] at h
    dsimp only at h
    split at h
    · rename_i hend
      exact (hread.ok hend).1.loaded h
    · rename_i hend
      exact (hread.error hend).1.loaded h

theorem within_textsRead (hmain : outermost o loader name = .ok main) {d : Diagnostic}
    (h : read o loader resolver name = (.error d, resolver')) :
    d.Within (textsRead o loader resolver name) := by
  have hread := reportsAt_readAll (loaded_of_outermost hmain) resolver
  rw [read_eq, hmain] at h
  unfold textsRead
  rw [hmain]
  dsimp only at h ⊢
  cases hend : ending o loader resolver main with
  | ok page b =>
    rw [hend] at h
    cases h
  | error d' b =>
    rw [hend] at h
    cases h
    exact (hread.error hend).2.1

theorem reported_outermost {d : Diagnostic} (h : outermost o loader name = .error d) :
    d.fault.aborts = false := by
  have hfailing : Failing Diagnostic.Unplaced (outermost o loader name) :=
    .bind (loader.failing_load _) fun _ _ => .bind (Encoding.failing_decode _ _ _ _) fun _ _ => .ok _
  exact (hfailing d h).2

theorem splits_of_read {d : Diagnostic} (h : read o loader resolver name = (.error d, resolver'))
    (haborts : d.fault.aborts = true) : d.Splits o loader := by
  rw [read_eq] at h
  cases hmain : outermost o loader name with
  | error d' =>
    rw [hmain] at h
    cases h
    rw [reported_outermost hmain] at haborts
    cases haborts
  | ok main =>
    have hread := reportsAt_readAll (loaded_of_outermost hmain) resolver
    rw [hmain] at h
    dsimp only at h
    cases hend : ending o loader resolver main with
    | ok page b =>
      rw [hend] at h
      cases h
    | error d' b =>
      rw [hend] at h
      cases h
      exact (hread.error hend).2.2 haborts

theorem covered_read {page : Page} (h : read o loader resolver name = (.ok page, resolver')) :
    page.Covered ∧ page.tree.sources = textsRead o loader resolver name := by
  rw [read_eq] at h
  unfold textsRead
  cases hmain : outermost o loader name with
  | error d =>
    rw [hmain] at h
    cases h
  | ok main =>
    have hread := reportsAt_readAll (loaded_of_outermost hmain) resolver
    rw [hmain] at h
    dsimp only at h ⊢
    cases hend : ending o loader resolver main with
    | error d b =>
      rw [hend] at h
      cases h
    | ok page' b =>
      rw [hend] at h
      cases h
      have hsound := (hread.ok hend).1
      rw [ending, readAll_eq] at hend
      obtain ⟨_, b₁, -, hfinish⟩ := BuildM.bind_eq_ok.mp hend
      exact covered_of_finish hfinish hsound

end Page
end PageCompiler
