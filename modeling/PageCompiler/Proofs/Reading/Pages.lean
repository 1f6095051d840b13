import PageCompiler.Proofs.Page.Preorder
import PageCompiler.Proofs.Reading.Placement
import PageCompiler.Proofs.Text.Bytes
import PageCompiler.Reading.Unit

namespace PageCompiler

open PageCompiler.Tree

namespace Page

open Builder

variable {o : Options} {loader : Loader} {b b' : Builder}

-- A unit as it has been loaded and decoded: what its root says of it, and its text.
structure Loaded (o : Options) (loader : Loader) (data : UnitRoot) (text : List Char) : Prop where
  load : ∃ bytes, loader.load data.unit = .ok bytes ∧
    Encoding.decode data.unit bytes o.pageEncoding o.defaultEncoding = .ok ⟨text, data.encoding⟩
  form_eq : data.form = UnitForm.choose data.unit text o.forceStrict

-- However often it is part of a page, a unit is the same.
theorem Loaded.unique {data data' : UnitRoot} {text text' : List Char}
    (h : Loaded o loader data text) (h' : Loaded o loader data' text')
    (hunit : data'.unit = data.unit) :
    text' = text ∧ data'.encoding = data.encoding ∧ data'.form = data.form := by
  obtain ⟨⟨bytes, hload, hdecode⟩, hform⟩ := h
  obtain ⟨⟨bytes', hload', hdecode'⟩, hform'⟩ := h'
  rw [hunit, hload] at hload'
  cases hload'
  rw [hunit, hdecode] at hdecode'
  injection hdecode' with heq
  injection heq with htext hencoding
  exact ⟨htext.symm, hencoding.symm, by rw [hform', hform, hunit, htext]⟩

-- Reading a unit under its root keeps to its own part of the tree.
def Reads (reader : UnitReader) : Prop :=
  ∀ {root : NodeId} {unit : String} {text : List Char} {form : UnitForm} {b b' : Builder}
    {u : Unit}, reader root unit text form b = .ok u b' →
      Inside { b with units := unit :: b.units } root → Advances b b'

-- Where a unit can be included: in the unit that is being read, or next to the page as a whole.
structure Open (b : Builder) (origin : UnitOrigin) (parent : NodeId) : Prop where
  lt_size : parent < b.tree.size
  not_text : (b.tree.kind parent).run? = none
  units : (if origin = .included then b.tree.unitsAround parent else []) = b.units

theorem Open.of_inside {parent : NodeId} (h : Inside b parent) : Open b .included parent :=
  ⟨h.lt_size, h.not_text, h.units_eq⟩

theorem Open.advance {origin : UnitOrigin} {parent : NodeId} (h : Open b origin parent)
    (ha : Advances b b') : Open b' origin parent := by
  have hkeeps := ha.grows.keeps_places
  refine ⟨h.lt_size.trans_le hkeeps.size_le, ?_, ?_⟩
  · have htext := hkeeps.isText_eq parent h.lt_size
    rw [h.not_text] at htext
    simpa using htext
  · rw [hkeeps.unitsAround_eq h.lt_size, ha.units_eq, h.units]

-- The unit is not being read yet, it can be loaded, and it has a root of its own.
theorem enterUnit_eq_ok {parent root : NodeId} {target unit : String} {origin : UnitOrigin}
    {mark : Mark} {text : List Char} {form : UnitForm}
    (h : enterUnit o loader parent target origin mark b = .ok (root, unit, text, form) b') :
    unit ∉ b.units ∧ (∃ base, unit = UnitName.resolve base target) ∧
      ∃ data b₁, Loaded o loader data text ∧ data.unit = unit ∧ data.form = form ∧
        data.origin = origin ∧ b.Still b₁ ∧
        append parent { kind := .root data, mark := .start unit, body := some [] } b₁ =
          .ok root b' := by
  unfold enterUnit at h
  obtain ⟨_, _, hget, h⟩ := BuildM.bind_eq_ok.mp h
  cases hget
  obtain ⟨_, _, hget, h⟩ := BuildM.bind_eq_ok.mp h
  cases hget
  dsimp only at h
  split at h
  · obtain ⟨_, _, hfail, _⟩ := BuildM.bind_eq_ok.mp h
    exact absurd hfail fail_ne_ok
  · rename_i hnew
    obtain ⟨bytes, b₁, hload, h⟩ := BuildM.bind_eq_ok.mp h
    obtain ⟨decoded, b₂, hdecode, h⟩ := BuildM.bind_eq_ok.mp h
    obtain ⟨_, b₃, hsource, h⟩ := BuildM.bind_eq_ok.mp h
    obtain ⟨_, b₄, hdepend, h⟩ := BuildM.bind_eq_ok.mp h
    obtain ⟨_, _, hget, h⟩ := BuildM.bind_eq_ok.mp h
    cases hget
    obtain ⟨root', b₅, happend, h⟩ := BuildM.bind_eq_ok.mp h
    cases h
    have hb₃ : Still b₂ b₃ := by
      refine ⟨quietly_modifyTree (fun t => .single (.addSource t _ _))
        (fun t => alike_addSource t _ _) hsource, ?_⟩
      cases hsource
      rfl
    refine ⟨by simpa using hnew, ⟨_, rfl⟩, _, b₄, ⟨⟨bytes, (placeError_eq_ok hload).1, ?_⟩, rfl⟩,
      rfl, rfl, rfl, ?_, happend⟩
    · exact (placeError_eq_ok hdecode).1
    · exact (stilly_placeError _ _ hload).trans ((stilly_placeError _ _ hdecode).trans
        (hb₃.trans (stilly_modifyBindings _ hdepend)))

-- The root of a unit belongs to that unit.
theorem Open.inside_root {data : UnitRoot} {parent root : NodeId}
    (hopen : Open b data.origin parent)
    (h : append parent { kind := .root data, mark := .start data.unit, body := some [] } b =
      .ok root b') : Inside { b' with units := data.unit :: b'.units } root := by
  obtain ⟨rfl, rfl⟩ := append_eq_ok h
  refine ⟨(Nat.lt_succ_self _).trans_eq size_append.symm, by rw [kind_append]; rfl, ?_⟩
  rw [unitsAround_append hopen.lt_size, ← hopen.units]
  rfl

theorem includeUnit_advances {reader : UnitReader} (hr : Reads reader) {parent root : NodeId}
    {target : String} {origin : UnitOrigin} {mark : Mark}
    (h : includeUnit o loader reader parent target origin mark b = .ok root b')
    (hopen : Open b origin parent) : Advances b b' := by
  unfold includeUnit at h
  obtain ⟨⟨root', unit, text, form⟩, b₂, henter, hrest⟩ := BuildM.bind_eq_ok.mp h
  obtain ⟨hnew, -, data, b₁, -, rfl, -, rfl, hquiet, happend⟩ := enterUnit_eq_ok henter
  have hb₁ := hquiet.toAdvances
  obtain ⟨_, b₃, hread, hend⟩ := BuildM.bind_eq_ok.mp hrest
  cases hend
  have hopen₁ := hopen.advance hb₁
  have hfits : Fits b₁.tree parent
      { kind := .root data, mark := .start data.unit, body := some [] } := by
    refine ⟨hopen₁.lt_size, hopen₁.not_text, rfl, ?_, ?_, ?_, ?_⟩
    · rintro _ ⟨⟩
      refine ⟨rfl, fun hincluded hmem => hnew ?_⟩
      have hunits := hopen₁.units
      rw [if_pos hincluded, hb₁.units_eq] at hunits
      rwa [hunits] at hmem
    · rintro ⟨⟩
    · rintro _ ⟨⟩
    · rintro _ ⟨⟩
  have hb₂ := append_advances happend hfits
  exact hb₁.trans (hb₂.trans (hr hread (hopen₁.inside_root happend)))

theorem reads_readLevel {inner : UnitReader} (hinner : Reads inner) :
    Reads (readLevel o loader inner) := by
  intro root unit text form b b' u h hin
  have hi : Includes (includeUnit o loader inner) :=
    fun h hin => includeUnit_advances hinner h (.of_inside hin)
  -- The units being read are put back behind the unit.
  have hback : ∀ {b₁ : Builder}, Advances { b with units := unit :: b.units } b₁ →
      Advances b { b₁ with units := b.units } := fun hb => ⟨hb.grows, rfl⟩
  unfold readLevel at h
  obtain ⟨_, _, hget, h⟩ := BuildM.bind_eq_ok.mp h
  cases hget
  obtain ⟨_, _, henter, h⟩ := BuildM.bind_eq_ok.mp h
  cases henter
  cases form with
  | relaxed =>
    obtain ⟨_, b₁, hread, h⟩ := BuildM.bind_eq_ok.mp h
    cases h
    exact hback (Relaxed.read_advances hi hread hin rfl)
  | strict =>
    obtain ⟨_, b₁, hread, h⟩ := BuildM.bind_eq_ok.mp h
    cases h
    exact hback (Strict.readDocument_advances hi hread (Strict.placed_start hin rfl))

-- By induction on how deep units may still include each other.
theorem reads_readUnit (o : Options) (loader : Loader) (depth : Nat) :
    Reads (readUnit o loader depth) := by
  induction depth with
  | zero => exact fun h => absurd h fail_ne_ok
  | succ depth ih => exact reads_readLevel ih

-- Units put in front of or behind the page.
theorem forIn_advances {reader : UnitReader} (hr : Reads reader) {origin : UnitOrigin} {mark : Mark}
    {names : List String} {u : PUnit}
    (h : (forIn names PUnit.unit fun name _ => do
      discard (includeUnit o loader reader Tree.root name origin mark)
      pure (ForInStep.yield PUnit.unit) : BuildM PUnit) b = .ok u b')
    (hopen : Open b origin Tree.root) : Advances b b' := by
  have : IsPreorder Builder fun b b' => Open b origin Tree.root → Advances b b' :=
    isPreorder_of_keeps Open.advance
  have hunit : ∀ name, Relates (fun b b' => Open b origin Tree.root → Advances b b')
      (includeUnit o loader reader Tree.root name origin mark) :=
    fun _ _ _ _ h hopen => includeUnit_advances hr h hopen
  exact Relates.forIn hunit names h hopen

-- The root of the page belongs to the page's unit, and stays there.
theorem inside_advance {unit : String} {id : NodeId}
    (hin : Inside { b with units := unit :: b.units } id) (ha : Advances b b') :
    Inside { b' with units := unit :: b'.units } id :=
  hin.advance ⟨ha.grows, by rw [ha.units_eq]⟩

theorem inside_ofRoot (o : Options) (resolver : Resolver) {r : UnitRoot} (hr : r.origin = .page)
    (text : String) :
    Inside { ofOptions o (ofRoot r text) resolver with units := [r.unit] } Tree.root :=
  ⟨(wellFormed_ofRoot r text).root_lt, rfl, unitsAround_ofRoot (by rw [hr]; decide) text⟩

-- Next to the page, units are read on their own.
theorem Open.of_page {unit : String} {origin : UnitOrigin}
    (hin : Inside { b with units := unit :: b.units } Tree.root) (hunits : b.units = [])
    (horigin : origin ≠ .included) : Open b origin Tree.root :=
  ⟨hin.lt_size, hin.not_text, by rw [if_neg horigin, hunits]⟩

-- Reads all units of a page; what is left to do is to finish it.
def readUnits (o : Options) (loader : Loader) (reader : UnitReader) (unit : String)
    (text : List Char) (form : UnitForm) : BuildM Unit := do
  let start := Mark.start unit
  for name in o.prelude do
    discard (includeUnit o loader reader Tree.root name .prelude start)
  reader Tree.root unit text form
  for name in o.coda do
    discard (includeUnit o loader reader Tree.root name .coda start)

theorem readAll_eq (o : Options) (loader : Loader) (reader : UnitReader) (unit : String)
    (text : List Char) (form : UnitForm) : readAll o loader reader unit text form =
      readUnits o loader reader unit text form >>= fun _ => finish := by
  simp only [readAll, readUnits, bind_assoc, pure_bind]

theorem readUnits_eq_ok {reader : UnitReader} {unit : String} {text : List Char} {form : UnitForm}
    {u : Unit} (h : readUnits o loader reader unit text form b = .ok u b') :
    ∃ u₁ b₁ u₂ b₂ u₃,
      (forIn o.prelude PUnit.unit fun name _ => do
        discard (includeUnit o loader reader Tree.root name .prelude (.start unit))
        pure (ForInStep.yield PUnit.unit) : BuildM PUnit) b = .ok u₁ b₁ ∧
      reader Tree.root unit text form b₁ = .ok u₂ b₂ ∧
      (forIn o.coda PUnit.unit fun name _ => do
        discard (includeUnit o loader reader Tree.root name .coda (.start unit))
        pure (ForInStep.yield PUnit.unit) : BuildM PUnit) b₂ = .ok u₃ b' := by
  unfold readUnits at h
  obtain ⟨u₁, b₁, hprelude, h⟩ := BuildM.bind_eq_ok.mp h
  obtain ⟨u₂, b₂, hread, h⟩ := BuildM.bind_eq_ok.mp h
  obtain ⟨u₃, b₃, hcoda, h⟩ := BuildM.bind_eq_ok.mp h
  cases h
  exact ⟨u₁, b₁, u₂, b₂, u₃, hprelude, hread, hcoda⟩

theorem readUnits_advances {reader : UnitReader} (hr : Reads reader) {unit : String}
    {text : List Char} {form : UnitForm} {u : Unit}
    (h : readUnits o loader reader unit text form b = .ok u b')
    (hin : Inside { b with units := unit :: b.units } Tree.root) (hunits : b.units = []) :
    Advances b b' := by
  obtain ⟨_, b₁, _, b₂, _, hprelude, hread, hcoda⟩ := readUnits_eq_ok h
  have hb₁ := forIn_advances hr hprelude (.of_page hin hunits (by decide))
  have hb₂ := hb₁.trans (hr hread (inside_advance hin hb₁))
  have hopen₂ : Open b₂ .coda Tree.root :=
    (Open.of_page hin hunits (by decide)).advance hb₂
  exact hb₂.trans (forIn_advances hr hcoda hopen₂)

-- All units of the page of the given name have been read.
def ReadTo (o : Options) (loader : Loader) (resolver : Resolver) (name : String) (b : Builder) :
    Prop :=
  ∃ data text, Loaded o loader data text ∧ data.unit = UnitName.normalize name ∧
    data.origin = .page ∧ data.parentRoot = none ∧
    readUnits o loader (readUnit o loader (loader.capacity + 1)) data.unit text data.form
      (ofOptions o (ofRoot data (String.ofList text)) resolver) = .ok () b

-- There is one way to read them.
theorem ReadTo.unique {resolver : Resolver} {name : String} (h : ReadTo o loader resolver name b)
    (h' : ReadTo o loader resolver name b') : b' = b := by
  obtain ⟨data, text, hloaded, hname, horigin, hparent, hread⟩ := h
  obtain ⟨data', text', hloaded', hname', horigin', hparent', hread'⟩ := h'
  have hunit : data'.unit = data.unit := hname'.trans hname.symm
  obtain ⟨rfl, hencoding, hform⟩ := hloaded.unique hloaded' hunit
  have hdata : data' = data := by
    cases data
    cases data'
    simp_all
  rw [hdata, hread] at hread'
  cases hread'
  rfl

theorem readTo_of_read {resolver resolver' : Resolver} {name : String} {page : Page}
    (h : read o loader resolver name = (.ok page, resolver')) :
    ∃ b b', ReadTo o loader resolver name b ∧ finish b = .ok page b' := by
  unfold read readWith at h
  dsimp only at h
  split at h
  · cases h
  · rename_i decoded hdecoded
    cases hload : loader.load (UnitName.normalize name) with
    | error d =>
      rw [hload] at hdecoded
      cases hdecoded
    | ok bytes =>
      rw [hload] at hdecoded
      dsimp only [Bind.bind, Except.bind] at hdecoded
      have hloaded : Loaded o loader
          { unit := UnitName.normalize name
            form := .choose (UnitName.normalize name) decoded.text o.forceStrict, origin := .page
            encoding := decoded.encoding, parentRoot := none } decoded.text :=
        ⟨⟨bytes, hload, hdecoded⟩, rfl⟩
      split at h
      · rename_i hrun
        cases h
        rw [EStateM.run, readAll_eq] at hrun
        obtain ⟨_, b, hunits, hfinish⟩ := BuildM.bind_eq_ok.mp hrun
        exact ⟨b, _, ⟨_, _, hloaded, rfl, rfl, rfl, hunits⟩, hfinish⟩
      · cases h

theorem ReadTo.grows {resolver : Resolver} {name : String} (h : ReadTo o loader resolver name b) :
    ∃ r text, r.origin = .page ∧ Grows (ofRoot r text) b.tree := by
  obtain ⟨data, text, -, -, horigin, -, hunits⟩ := h
  exact ⟨data, _, horigin, (readUnits_advances (reads_readUnit o loader _) hunits
    (inside_ofRoot o resolver horigin _) rfl).grows⟩

theorem ReadTo.arranged {resolver : Resolver} {name : String}
    (h : ReadTo o loader resolver name b) : b.tree.Arranged := by
  obtain ⟨r, text, horigin, hgrows⟩ := h.grows
  exact hgrows.keeps Arranged.step (arranged_ofRoot (by rw [horigin]; decide) text)

-- A page that has been read has grown from its root.
theorem grows_read {resolver resolver' : Resolver} {name : String} {page : Page}
    (h : read o loader resolver name = (.ok page, resolver')) :
    ∃ r text, r.origin = .page ∧ Grows (ofRoot r text) page.tree := by
  obtain ⟨b, b', hb, hfinish⟩ := readTo_of_read h
  obtain ⟨r, text, horigin, hgrows⟩ := hb.grows
  exact ⟨r, text, horigin, hgrows.trans (finish_eq_ok hfinish).1⟩

-- Whether a page is read for which a test holds.
def passes (o : Options) (loader : Loader) (resolver : Resolver) (name : String)
    (test : Page → Bool) : Bool :=
  (read o loader resolver name).1.toOption.any test

theorem of_any {α : Type} {run : Except Diagnostic α × Resolver} {test : α → Bool}
    (h : run.1.toOption.any test = true) :
    ∃ a resolver, run = (.ok a, resolver) ∧ test a = true := by
  obtain ⟨result, resolver⟩ := run
  cases result with
  | error d => cases h
  | ok a => exact ⟨a, resolver, rfl, h⟩

theorem of_passes {resolver : Resolver} {name : String} {test : Page → Bool}
    (h : passes o loader resolver name test = true) :
    ∃ page resolver', read o loader resolver name = (.ok page, resolver') ∧ test page = true :=
  of_any h

theorem arranged_read {resolver resolver' : Resolver} {name : String} {page : Page}
    (h : read o loader resolver name = (.ok page, resolver')) : page.tree.Arranged := by
  obtain ⟨r, text, horigin, hgrows⟩ := grows_read h
  exact hgrows.keeps Arranged.step (arranged_ofRoot (by rw [horigin]; decide) text)

theorem sourced_read {resolver resolver' : Resolver} {name : String} {page : Page}
    (h : read o loader resolver name = (.ok page, resolver')) : page.tree.Sourced := by
  obtain ⟨r, text, -, hgrows⟩ := grows_read h
  exact hgrows.keeps Sourced.step (sourced_ofRoot r text)

theorem wellFormed_read {resolver resolver' : Resolver} {name : String} {page : Page}
    (h : read o loader resolver name = (.ok page, resolver')) : page.tree.WellFormed :=
  (arranged_read h).wellFormed

-- Nothing stands under text.
theorem not_blank_of_parent {t : Tree} (h : t.Arranged) {id p : Nat} (hp : t.parent id = some p) :
    (t.kind p).isBlankText = false := by
  have hnotext := h.parent_not_text hp
  cases hk : t.kind p <;> rw [hk] at hnotext <;> first | rfl | cases hnotext

-- By induction on the number of the node: what stands under a node that is out of reach would
-- stand under text.
theorem reachable_or_blank {t : Tree} (h : t.Arranged) {id : Nat} (hid : id < t.size) :
    t.Reachable id ∨ (t.kind id).isBlankText := by
  induction id using Nat.strongRecOn with
  | ind id ih =>
    rcases Nat.eq_zero_or_pos id with rfl | hpos
    · exact .inl .refl
    · obtain ⟨p, hp, hlt⟩ := h.parent_lt id hpos hid
      have hreach : t.Reachable p := by
        refine (ih p hlt (hlt.trans hid)).resolve_right fun hblank => ?_
        rw [not_blank_of_parent h hp] at hblank
        cases hblank
      exact (h.listed hp).imp_left hreach.tail

theorem mem_preorder_of_child {t : Tree} (h : t.Arranged) {id c : Nat} (hc : c ∈ t.children id) :
    id ∈ t.preorder := by
  obtain ⟨hlt, hsize⟩ := h.wellFormed.child_lt hc
  refine h.wellFormed.mem_preorder_of_reachable
    ((reachable_or_blank h (hlt.trans hsize)).resolve_right fun hblank => ?_)
  rw [not_blank_of_parent h (h.wellFormed.parent_eq hc)] at hblank
  cases hblank

-- Only text is out of reach, so that every custom action comes up.
theorem mem_preorder_of_custom {t : Tree} (h : t.Arranged) {id : Nat} {data : CustomAction}
    (hk : t.kind id = .custom data) : id ∈ t.preorder := by
  have hid : id < t.size := by
    by_contra hout
    rw [kind, node_of_size_le (Nat.le_of_not_lt hout)] at hk
    cases hk
  refine h.wellFormed.mem_preorder_of_reachable ((reachable_or_blank h hid).resolve_right ?_)
  intro hblank
  rw [hk] at hblank
  cases hblank

-- Every page that has been read, whatever units it is made of, is laid out like this: only the
-- root has no parent; a node is listed by its parent alone, which has a smaller number; bodies are
-- in the order of numbers; only blank text is out of reach; every node is marked in the unit of the
-- nearest root; custom actions know how many of their name they stand in; and walking with a stack
-- comes to an end and gives the nodes of the recursive walk.
theorem layout_read {o : Options} {loader : Loader} {resolver resolver' : Resolver} {name : String}
    {page : Page} (h : read o loader resolver name = (.ok page, resolver')) :
    (∀ id < page.tree.size, page.tree.parent id = none ↔ id = Tree.root) ∧
    (∀ id < page.tree.size, id ≠ Tree.root → ∃ p, page.tree.parent id = some p ∧ p < id ∧
      (page.tree.children p).count id ≤ 1 ∧ ∀ q, id ∈ page.tree.children q → q = p) ∧
    (∀ id, (page.tree.children id).Pairwise (· < ·)) ∧
    (∀ id < page.tree.size, ¬page.tree.Reachable id → (page.tree.kind id).isBlankText) ∧
    (∀ id < page.tree.size, ∃ data, page.tree.kind (page.tree.unitRoot id) = .root data ∧
      (page.tree.mark id).unit = data.unit) ∧
    (∀ id < page.tree.size, ∀ data, page.tree.kind id = .custom data →
      data.nestingLevel =
        (page.tree.ancestors id).countP (page.tree.isNamedAction data.qualifiedName)) ∧
    page.tree.preorder.Nodup ∧
    (∀ more, page.tree.walk (fun _ => true) (page.tree.size + more) [Tree.root] =
      page.tree.preorder) ∧
    ∀ ids, page.tree.Visited [Tree.root] ids ↔ ids = page.tree.preorder := by
  have ht := arranged_read h
  have hwf := ht.wellFormed
  refine ⟨fun id hid => ⟨fun hnone => ?_, fun hroot => hroot ▸ ht.parent_root⟩,
    fun id hid hne => ?_, hwf.increasing,
    fun id hid hout => (reachable_or_blank ht hid).resolve_left hout, fun id hid => ?_,
    fun id hid data hdata => ht.nesting id hid data (by rw [hdata]; rfl),
    nodup_entered hwf _, hwf.walk_eq_preorder, fun ids => hwf.visited_iff⟩
  · by_contra hne
    obtain ⟨p, hp, -⟩ := ht.parent_lt id (Nat.pos_of_ne_zero hne) hid
    rw [hnone] at hp
    cases hp
  · obtain ⟨p, hp, hlt⟩ := ht.parent_lt id (Nat.pos_of_ne_zero hne) hid
    have hnodup : (page.tree.children p).Nodup := (hwf.increasing p).imp fun hlt => hlt.ne
    refine ⟨p, hp, hlt, List.nodup_iff_count.mp hnodup id, fun q hq => ?_⟩
    exact Option.some.inj ((hwf.parent_eq hq).symm.trans hp)
  · obtain ⟨data, hdata, hunit⟩ := head?_unitsAround (ht.unit id hid)
    exact ⟨data, hdata, hunit.symm⟩

end Page

-- An action whose title is given as an element, with an action of its name in its body.
def layoutLibrary : Library :=
  { uri := "urn:sample", shortName := "sample"
    tags := [{ name := "panel", handlerClass := "sample.PanelTag"
               attributes := [{ name := "title" }] }] }

-- A page that includes a document and has another unit put in front of it.
def layoutUnits : Loader :=
  .ofUnits
    [("top.page", Text.Utf8.ofString "<%@ taglib prefix=\"s\" uri=\"urn:sample\" %>\n"),
      ("main.page", Text.Utf8.ofString
        ("<%@ include file=\"part.pagx\" %><s:panel> <jsp:attribute name=\"title\"> x " ++
          "</jsp:attribute> <jsp:body><s:panel>y</s:panel></jsp:body></s:panel>")),
      ("part.pagx", Text.Utf8.ofString
        ("<jsp:root xmlns:jsp=\"http://java.sun.com/JSP/Page\" version=\"2.0\"><b>z</b>" ++
          "</jsp:root>"))]

-- The blanks next to the title are out of reach.
theorem Page.layout_read_sample :
    ∃ page resolver, Page.read { prelude := ["top.page"] } layoutUnits (.ofLibraries [layoutLibrary])
        "main.page" = (.ok page, resolver) ∧
      (∃ id < page.tree.size, ¬page.tree.Reachable id ∧ (page.tree.kind id).isBlankText) ∧
      page.tree.preorder.Nodup := by
  have hrun : Page.passes { prelude := ["top.page"] } layoutUnits (.ofLibraries [layoutLibrary])
      "main.page" (fun page =>
        (List.range page.tree.size).any fun id => !page.tree.preorder.contains id) := by
    rw [layoutUnits, Text.Utf8.ofString_append, Text.Utf8.ofString_append]
    repeat rw [Text.Utf8.ofString_ofList]
    decide +kernel
  obtain ⟨page, resolver, h, hout⟩ := Page.of_passes hrun
  obtain ⟨id, hid, hout⟩ := List.any_eq_true.mp hout
  have hlt := List.mem_range.mp hid
  have hreach : ¬page.tree.Reachable id := by
    intro hreach
    have hmem := (Page.wellFormed_read h).mem_preorder_of_reachable hreach
    simp [hmem] at hout
  obtain ⟨-, -, -, hblank, -, -, hnodup, -⟩ := Page.layout_read h
  exact ⟨page, resolver, h, ⟨id, hlt, hreach, hblank id hlt hreach⟩, hnodup⟩

end PageCompiler
