import PageCompiler.Proofs.Checking.Attributes
import PageCompiler.Proofs.Checking.Reconciling
import PageCompiler.Proofs.Forms.Pages
import PageCompiler.Proofs.Forms.Shown

namespace PageCompiler

open Text

namespace Checking

variable {x : Context} {id : Nat}

theorem kindName_of_classifyText {reject : String → Except Diagnostic AttributeValue}
    (hr : ∀ reason value, reject reason ≠ .ok value) {action : String} {a : Attribute}
    {policy : Policy} {value : AttributeValue}
    (hel : x.settings.elIgnored = false) (hdeferred : x.settings.deferredAsLiteral = false)
    (h : classifyText x reject action a policy = .ok value) :
    value.kindName = Shape.valueKind a.value := by
  unfold classifyText at h
  rw [hel, hdeferred, Bool.false_and] at h
  unfold Shape.valueKind
  dsimp only at h
  split at h
  · cases h
  · rename_i composite hparse
    rw [hparse]
    dsimp only
    split at h
    · rename_i hnone
      rw [if_pos hnone]
      split at h
      · exact absurd h (hr _ _)
      · cases h
        rfl
    · rename_i dialect hone
      rw [if_neg (by rw [hone]; exact List.cons_ne_nil _ _)]
      split at h
      · exact absurd h (hr _ _)
      · split at h
        · exact absurd h (hr _ _)
        · split at h
          · exact absurd h (hr _ _)
          · obtain ⟨_, -, h⟩ := bind_eq_ok.mp h
            cases h
            rfl
    · cases h

theorem kindName_of_classify {a : Attribute} (ha : a.scripting = false) {policy : Policy}
    {value : AttributeValue} (hel : x.settings.elIgnored = false)
    (hdeferred : x.settings.deferredAsLiteral = false)
    (h : classify x id (.inline a) policy = .ok value) :
    value.kindName = Shape.valueKind a.value := by
  unfold classify at h
  dsimp only [Supplied.inline] at h
  split at h
  · cases h
  · rw [ha, if_neg Bool.false_ne_true] at h
    exact kindName_of_classifyText (fun _ _ hr => by cases hr) hel hdeferred h

-- Without attributes that are given as elements, there are those in the tag.
theorem ofNode_eq {t : Tree} (hc : ∀ c ∈ t.children id, (t.kind c).isNamed = false) :
    Supplied.ofNode t id = (t.node id).attributes.map .inline := by
  unfold Supplied.ofNode
  rw [List.filterMap_eq_nil_iff.mpr ?_, List.append_nil]
  intro c hm
  have hnamed := hc c hm
  split
  · rename_i hk
    rw [hk] at hnamed
    cases hnamed
  · rfl

theorem label_of_resolveCustom {data : CustomAction} {a : Attribute} {r : ResolvedAttribute}
    (h : resolveCustom x id data (.inline a) = .ok r) (ha : a.scripting = false)
    (hel : x.settings.elIgnored = false) (hdeferred : x.settings.deferredAsLiteral = false) :
    " " ++ r.name ++ ":" ++ r.value.kindName = Shape.attributeLabel (a.name, a.value) := by
  obtain ⟨policy, hvalue⟩ := classify_of_resolveCustom h
  rw [name_of_resolveCustom h, kindName_of_classify ha hel hdeferred hvalue]
  rfl

-- The attributes of an action as they are shown in an outline.
theorem labels_of_custom {data : CustomAction} {f : Finding} (h : Established x id f)
    (hk : x.tree.kind id = .custom data)
    (hc : ∀ c ∈ x.tree.children id, (x.tree.kind c).isNamed = false)
    (hs : ∀ a ∈ (x.tree.node id).attributes, a.scripting = false)
    (hel : x.settings.elIgnored = false) (hdeferred : x.settings.deferredAsLiteral = false) :
    (f.attributes.map fun a => " " ++ a.name ++ ":" ++ a.value.kindName) =
      (x.tree.node id).attributes.map fun a => Shape.attributeLabel (a.name, a.value) := by
  rw [Established, hk] at h
  obtain ⟨number, h⟩ := h
  have hattrs := (checkCustom_eq_ok h).1
  rw [ofNode_eq hc, mapM_eq_ok, List.forall₂_map_left_iff] at hattrs
  clear h
  generalize (x.tree.node id).attributes = attrs at hattrs hs
  generalize f.attributes = found at hattrs
  induction hattrs with
  | nil => rfl
  | cons ha _ ih =>
    have hrest := ih fun a hm => hs a (List.mem_cons_of_mem _ hm)
    have hfirst := label_of_resolveCustom ha (hs _ (List.mem_cons_self ..)) hel hdeferred
    rw [List.map_cons, List.map_cons, hrest, hfirst]

end Checking

namespace Tree

open Checking

section
variable {c : CheckedPage} (hwell : c.page.tree.WellFormed)
  (hall : ∀ id ∈ c.page.tree.preorder, Established (c.context {}) id (c.findings.get id))
  (hel : c.settings.elIgnored = false) (hdeferred : c.settings.deferredAsLiteral = false)
include hwell hall hel hdeferred

-- By induction on the shape; every node takes up fuel, and the nodes below it have greater numbers.
theorem outlineFrom_shows {low : Nat} {ids : List Nat} {s : Shape}
    (h : Shows c.page.tree low ids s) (hids : ∀ id ∈ ids, id ∈ c.page.tree.preorder)
    {fuel : Nat} (hfuel : c.page.tree.size < low + fuel) (depth : Nat) :
    ids.flatMap (c.page.tree.outlineFrom c.findings fuel depth) = s.lines depth := by
  induction h generalizing fuel depth with
  | nil => rfl
  | @text low id ids rest run value hlow hid hk hv hr ih =>
    obtain ⟨n, rfl⟩ : ∃ n, fuel = n + 1 := ⟨fuel - 1, by omega⟩
    have hrest := ih (fun i hi => hids i (List.mem_cons_of_mem _ hi)) hfuel depth
    subst hv
    rw [List.flatMap_cons, hrest, outlineFrom, hk]
    rfl
  | @insert low id ids rest data hlow hid hk hn hc hr ih =>
    obtain ⟨n, rfl⟩ : ∃ n, fuel = n + 1 := ⟨fuel - 1, by omega⟩
    have hrest := ih (fun i hi => hids i (List.mem_cons_of_mem _ hi)) hfuel depth
    have hfinding : c.findings.get id = {} := by
      have hest := hall id (hids id (List.mem_cons_self ..))
      rwa [Established, show (c.context {}).tree.kind id = .insert data from hk] at hest
    rw [List.flatMap_cons, hrest, outlineFrom, hk, Shape.lines, hc]
    have hk' : (c.page.tree.node id).kind = .insert data := hk
    simp [outlineLabel, hk', hn, hfinding, nameText, NodeKind.label]
  | @script low id ids rest kind written code hlow hid hk hc ht hr ih =>
    obtain ⟨n, rfl⟩ : ∃ n, fuel = n + 1 := ⟨fuel - 1, by omega⟩
    have hrest := ih (fun i hi => hids i (List.mem_cons_of_mem _ hi)) hfuel depth
    rw [List.flatMap_cons, hrest, outlineFrom, hk]
    dsimp only
    rw [ht]
    rfl
  | @action low id ids body rest data hlow hid hk hn hs hb hr ihb ih =>
    obtain ⟨n, rfl⟩ : ∃ n, fuel = n + 1 := ⟨fuel - 1, by omega⟩
    have hmem := hids id (List.mem_cons_self ..)
    have hrest := ih (fun i hi => hids i (List.mem_cons_of_mem _ hi)) hfuel depth
    have hless : c.page.tree.size < id + 1 + n := by omega
    have hbody := ihb (fun i hi => hwell.child_mem_preorder hmem hi) hless (depth + 1)
    have hlabels := labels_of_custom (hall id hmem) hk (fun i hi => hb.isNamed_eq_false hi) hs
      hel hdeferred
    have hk' : (c.page.tree.node id).kind = .custom data := hk
    rw [List.flatMap_cons, hrest, outlineFrom, hk, Shape.lines]
    dsimp only
    rw [hbody, outlineLabel, hlabels]
    simp [hk', hn, nameText, NodeKind.label, Shape.actionLabel, CheckedPage.context,
      Function.comp_def]

end

end Tree

open PageCompiler.Tree Template Builder

-- The text of a unit, whatever the bytes it is written in.
def Loader.text? (loader : Loader) (o : Options) (name : String) : Option (List Char) :=
  let decoded := do
    let bytes ← loader.load (UnitName.normalize name)
    Encoding.decode (UnitName.normalize name) bytes o.pageEncoding o.defaultEncoding
  decoded.toOption.map Encoding.Decoded.text

namespace Page

theorem fresh_ofOptions (r : UnitRoot) (text : String) (resolver : Resolver) (units : List String) :
    Fresh resolver { ofOptions {} (ofRoot r text) resolver with units } where
  size_eq := rfl
  kind_eq := ⟨r, rfl⟩
  children_eq := rfl
  bound_eq := rfl
  libraries_eq := rfl
  resolver_eq := rfl
  scan_eq := rfl
  trimBlanks_eq := rfl

theorem readAll_of_read {o : Options} {loader : Loader} {resolver resolver' : Resolver}
    {name : String} {text : List Char} {page : Page} (ht : loader.text? o name = some text)
    (h : read o loader resolver name = (.ok page, resolver')) :
    ∃ r b, readAll o loader (readUnit o loader (loader.capacity + 1)) (UnitName.normalize name) text
      (UnitForm.choose (UnitName.normalize name) text o.forceStrict)
      (ofOptions o (ofRoot r (String.ofList text)) resolver) = .ok page b := by
  unfold Loader.text? at ht
  unfold read readWith at h
  dsimp only at h
  split at h
  · cases h
  rename_i decoded hdecoded
  rw [hdecoded] at ht
  cases ht
  split at h
  · rename_i p b hrun
    cases h
    exact ⟨_, b, hrun⟩
  · cases h

-- With default options a page is its own unit.
theorem readUnit_of_readAll {loader : Loader} {depth : Nat} {unit : String} {text : List Char}
    {form : UnitForm} {b b' : Builder} {page : Page}
    (h : readAll {} loader (readUnit {} loader (depth + 1)) unit text form b = .ok page b') :
    ∃ includeUnit b₁,
      (match form with
      | .relaxed => Relaxed.read includeUnit Tree.root unit text
      | .strict => Strict.read includeUnit false Tree.root unit text)
        { b with units := unit :: b.units } = .ok () b₁ ∧
      finish { b₁ with units := b.units } = .ok page b' := by
  unfold readAll at h
  obtain ⟨_, _, hbefore, h⟩ := BuildM.bind_eq_ok.mp h
  cases hbefore
  obtain ⟨_, b₁, hunit, h⟩ := BuildM.bind_eq_ok.mp h
  obtain ⟨_, _, hbehind, h⟩ := BuildM.bind_eq_ok.mp h
  cases hbehind
  unfold readUnit readLevel at hunit
  obtain ⟨_, _, hget, hunit⟩ := BuildM.bind_eq_ok.mp hunit
  cases hget
  obtain ⟨_, _, hmodify, hunit⟩ := BuildM.bind_eq_ok.mp hunit
  cases hmodify
  cases form with
  | relaxed =>
    obtain ⟨_, b₂, hread, hunit⟩ := BuildM.bind_eq_ok.mp hunit
    cases hunit
    exact ⟨_, b₂, hread, h⟩
  | strict =>
    obtain ⟨_, b₂, hread, hunit⟩ := BuildM.bind_eq_ok.mp hunit
    cases hunit
    exact ⟨_, b₂, hread, h⟩

end Page

-- The directive and the element around the template leave no line.
theorem CheckedPage.outline_eq {loader : Loader} {resolver r : Resolver} {name : String}
    {page : Page} {c : CheckedPage} {s : Shape}
    (hread : Page.read {} loader resolver name = (.ok page, r)) (hcheck : page.check {} = .ok c)
    (hc : Carries page.tree s) :
    c.page.tree.outline c.findings Tree.root =
      (((s.lines 1).foldl addLine [.node 0 "Root"]).reverse).map OutlineLine.render := by
  have hwell := Page.wellFormed_read hread
  have hsettings := Settings.reconcile_eq (Page.check_settings hcheck) hc.no_directive
  obtain ⟨rfl, hall⟩ := Page.check_established hcheck fun id hid =>
    hwell.lt_size_of_mem_preorder hid
  have hroot := hwell.root_mem_preorder
  obtain ⟨u, hu⟩ := hc.kind_eq
  obtain ⟨ids, hshow, hplace⟩ := hc.shown
  have hlines : ∀ fuel, (∀ id ∈ ids, id ∈ c.page.tree.preorder) → c.page.tree.size < 2 + fuel →
      ids.flatMap (c.page.tree.outlineFrom c.findings fuel 1) = s.lines 1 := fun fuel hids hfuel =>
    outlineFrom_shows hwell hall (by rw [hsettings]; rfl) (by rw [hsettings]; rfl) hshow hids hfuel
      1
  have hinside : (c.page.tree.children Tree.root).flatMap
      (c.page.tree.outlineFrom c.findings c.page.tree.size 1) = s.lines 1 := by
    obtain ⟨n, hn⟩ : ∃ n, c.page.tree.size = n + 1 :=
      ⟨c.page.tree.size - 1, by have := hwell.lt_size_of_mem_preorder hroot; omega⟩
    rcases hplace with ⟨hkind, hchildren⟩ | ⟨hkind, hchildren, rfl⟩
    · have hnone : c.page.tree.outlineFrom c.findings c.page.tree.size 1 1 = [] := by
        rw [hn, outlineFrom, hkind]
      rw [hchildren, List.flatMap_cons, hnone, List.nil_append]
      refine hlines _ (fun id hid => hwell.child_mem_preorder hroot ?_) (by omega)
      rw [hchildren]
      exact List.mem_cons_of_mem _ hid
    · have hone : 1 ∈ c.page.tree.preorder :=
        hwell.child_mem_preorder hroot (by rw [hchildren]; exact List.mem_singleton_self 1)
      rw [hchildren, List.flatMap_singleton, hn, outlineFrom, hkind]
      exact hlines n (fun id hid => hwell.child_mem_preorder hone hid) (by omega)
  rw [outline, outlineFrom, hu]
  dsimp only
  rw [if_pos rfl, hinside]
  rfl

theorem choose_strict (name : String) (space : List Char) (ref : LibraryRef) (version : List Char)
    (template : Template) :
    UnitForm.choose name (Strict.pageText space ref version template) none = .strict := by
  obtain ⟨rest, hrest⟩ : ∃ rest, Strict.pageText space ref version template =
      '<' :: ("jsp:root".toList ++ rest) := by
    unfold Strict.pageText tagText
    rw [List.append_assoc]
    exact ⟨_, rfl⟩
  have htrim : trimStart ('<' :: ("jsp:root".toList ++ rest)) =
      '<' :: ("jsp:root".toList ++ rest) :=
    List.dropWhile_cons_of_neg (by decide)
  have hprolog : startsWith "<?xml".toList ('<' :: ("jsp:root".toList ++ rest)) = false := by
    simp [startsWith, stripStart?]
  have hroot : startsWith "<jsp:root".toList ('<' :: ("jsp:root".toList ++ rest)) := by
    simp [startsWith, stripStart?]
  unfold UnitForm.choose
  dsimp only
  split
  · rfl
  · rw [hrest, htrim, hprolog, if_neg Bool.false_ne_true, if_pos hroot]

theorem Page.carries_relaxed {loader : Loader} {resolver resolver' : Resolver} {name : String}
    {page : Page} {space : List Char} {ref : LibraryRef} {template : Template}
    (hs : isPortableSpace space) (href : ref.isPortable) (hlegal : template.isLegal)
    (hstructured : Structured resolver ref template.actions)
    (ht : loader.text? {} name = some (Relaxed.pageText space ref template))
    (hform : UnitForm.choose (UnitName.normalize name) (Relaxed.pageText space ref template) none =
      .relaxed)
    (h : read {} loader resolver name = (.ok page, resolver')) :
    Usable space ∧ Carries page.tree (template.shape true space []) ∧
      ∃ library, (resolver.resolve ref).1 = .ok (some library) := by
  obtain ⟨r, b, hall⟩ := readAll_of_read ht h
  rw [hform] at hall
  obtain ⟨includeUnit, b₁, hunit, hfinish⟩ := readUnit_of_readAll hall
  obtain ⟨hu, hready, hcarries⟩ := Relaxed.read_carries hs href hlegal hstructured
    (fresh_ofOptions r _ resolver _) hunit
  obtain ⟨htree, hlibrary⟩ := finish_ready (hready.withUnits []) hfinish
  rw [htree]
  exact ⟨hu, hcarries, hlibrary⟩

theorem Page.carries_strict {loader : Loader} {resolver resolver' : Resolver} {name : String}
    {page : Page} {space : List Char} {ref : LibraryRef} {version : List Char} {template : Template}
    {library : Library} (hu : Usable space) (href : ref.isPortable) (hv : isValue version)
    (hlegal : template.isLegal) (hstructured : Structured resolver ref template.actions)
    (hl : (resolver.resolve ref).1 = .ok (some library))
    (ht : loader.text? {} name = some (Strict.pageText space ref version template))
    (h : read {} loader resolver name = (.ok page, resolver')) :
    Carries page.tree (template.shape false space []) := by
  obtain ⟨r, b, hall⟩ := readAll_of_read ht h
  rw [choose_strict] at hall
  obtain ⟨includeUnit, b₁, hunit, hfinish⟩ := readUnit_of_readAll hall
  obtain ⟨hready, hcarries⟩ := Strict.read_carries hu href hv hlegal hstructured
    (fresh_ofOptions r _ resolver _) hl hunit
  rw [(finish_ready (hready.withUnits []) hfinish).1]
  exact hcarries

-- A template that is written in both forms, with one library bound to its prefix, has one outline.
theorem CheckedPage.outline_forms {template : Template} (hlegal : template.isLegal)
    {space : List Char} (hs : isPortableSpace space) {ref : LibraryRef} (href : ref.isPortable)
    {version : List Char} (hv : isValue version) {resolver resolver' : Resolver}
    (hlibrary : (resolver'.resolve ref).1 = (resolver.resolve ref).1)
    (hstructured : Structured resolver ref template.actions)
    {relaxed strict : Loader} {name name' : String}
    (hrelaxed : relaxed.text? {} name = some (Relaxed.pageText space ref template))
    (hform : UnitForm.choose (UnitName.normalize name) (Relaxed.pageText space ref template) none =
      .relaxed)
    (hstrict : strict.text? {} name' = some (Strict.pageText space ref version template))
    {c c' : CheckedPage} {r r' : Resolver}
    (h : CheckedPage.ofUnit {} relaxed resolver name = (.ok c, r))
    (h' : CheckedPage.ofUnit {} strict resolver' name' = (.ok c', r')) :
    c.page.tree.outline c.findings Tree.root = c'.page.tree.outline c'.findings Tree.root := by
  obtain ⟨page, hread, hcheck⟩ := CheckedPage.ofUnit_eq_ok h
  obtain ⟨page', hread', hcheck'⟩ := CheckedPage.ofUnit_eq_ok h'
  obtain ⟨hu, hcarries, library, hl⟩ :=
    Page.carries_relaxed hs href hlegal hstructured hrelaxed hform hread
  rw [← hlibrary] at hl
  have hstructured' : Structured resolver' ref template.actions := by
    intro l hfound
    rw [hlibrary] at hfound
    exact hstructured l hfound
  have hcarries' := Page.carries_strict hu href hv hlegal hstructured' hl hstrict hread'
  have hsettled : Settled 1 [.node 0 "Root"] := settled_node 1 0 "Root" []
  rw [CheckedPage.outline_eq hread hcheck hcarries, CheckedPage.outline_eq hread' hcheck' hcarries',
    foldl_shape hsettled]

-- A loop with text, an expression and an action in its body, and raw code behind it.
def sampleTemplate : Template :=
  .element "each".toList [("items".toList, "${rows}".toList), ("var".toList, "row".toList)]
    (.text "Row ".toList (.insert "row".toList (.text "!\n".toList (.empty "rule".toList [] .nil))))
    (.text "\n".toList (.script .expression " total ".toList .nil))

def sampleLibrary : Library :=
  { uri := "urn:sample", shortName := "sample"
    tags := [
      { name := "each", handlerClass := "sample.EachTag"
        attributes := [{ name := "items", runtimeExpression := true }, { name := "var" }] },
      { name := "rule", handlerClass := "sample.RuleTag", bodyContent := .empty }] }

def sampleUnits : Loader :=
  .ofUnits
    [("list.page", Utf8.encode (Relaxed.pageText ['s'] (.uri "urn:sample") sampleTemplate)),
      ("list.pagx",
        Utf8.encode (Strict.pageText ['s'] (.uri "urn:sample") "2.1".toList sampleTemplate))]

theorem CheckedPage.outline_forms_sample :
    ∃ c c' r r', CheckedPage.ofUnit {} sampleUnits (.ofLibraries [sampleLibrary]) "list.page" =
        (.ok c, r) ∧
      CheckedPage.ofUnit {} sampleUnits (.ofLibraries [sampleLibrary]) "list.pagx" = (.ok c', r') ∧
      c.page.tree.outline c.findings Tree.root = c'.page.tree.outline c'.findings Tree.root := by
  have hrun : ∀ name ∈ ["list.page", "list.pagx"],
      (CheckedPage.ofUnit {} sampleUnits (.ofLibraries [sampleLibrary]) name).1.isOk := by
    decide +kernel
  have hok : ∀ name ∈ ["list.page", "list.pagx"], ∃ c r,
      CheckedPage.ofUnit {} sampleUnits (.ofLibraries [sampleLibrary]) name = (.ok c, r) := by
    intro name hname
    have hone := hrun name hname
    cases h : CheckedPage.ofUnit {} sampleUnits (.ofLibraries [sampleLibrary]) name with
    | mk checked r =>
      rw [h] at hone
      cases checked with
      | ok c => exact ⟨c, r, rfl⟩
      | error d => cases hone
  obtain ⟨c, r, h⟩ := hok "list.page" (by simp)
  obtain ⟨c', r', h'⟩ := hok "list.pagx" (by simp)
  have hstructured : Structured (.ofLibraries [sampleLibrary]) (.uri "urn:sample")
      sampleTemplate.actions := by
    intro library hl name hname tag htag
    cases hl
    have hall : ∀ name ∈ sampleTemplate.actions, ∀ tag ∈ sampleLibrary.tag? name,
        tag.bodyContent ≠ .verbatim := by
      decide +kernel
    exact hall name hname tag htag
  have hlegal : sampleTemplate.isLegal := by decide +kernel
  have hs : isPortableSpace ['s'] := by decide
  have href : (LibraryRef.uri "urn:sample").isPortable := by decide +kernel
  have hv : isValue "2.1".toList := by decide
  have hrelaxed : sampleUnits.text? {} "list.page" =
      some (Relaxed.pageText ['s'] (.uri "urn:sample") sampleTemplate) := by
    decide +kernel
  have hstrict : sampleUnits.text? {} "list.pagx" =
      some (Strict.pageText ['s'] (.uri "urn:sample") "2.1".toList sampleTemplate) := by
    decide +kernel
  exact ⟨c, c', r, r', h, h', CheckedPage.outline_forms hlegal hs href hv rfl hstructured hrelaxed
    (by decide +kernel) hstrict h h'⟩

end PageCompiler
