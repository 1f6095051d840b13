import PageCompiler.Proofs.Forms.RelaxedReading
import PageCompiler.Proofs.Forms.StrictReading
import PageCompiler.Proofs.Reading.Pages

namespace PageCompiler

open Text PageCompiler.Tree Template Builder

namespace Builder

-- Nothing has been read yet.
structure Fresh (resolver : Resolver) (b : Builder) : Prop where
  size_eq : b.tree.size = 1
  kind_eq : ∃ r, b.tree.kind Tree.root = .root r
  children_eq : b.tree.children Tree.root = []
  bound_eq : b.bindings.bound = []
  libraries_eq : b.bindings.libraries = []
  resolver_eq : b.resolver = resolver
  scan_eq : b.scan = {}
  trimBlanks_eq : b.trimBlanks = false

variable {resolver : Resolver} {space : String} {ref : LibraryRef} {b b' : Builder} {mark : Mark}

theorem bindSpace_eq_ok {u : Unit} (h : bindSpace space ref mark b = .ok u b')
    (hb : b.bindings.bound = []) :
    space ∉ reserved ∧ b' = { b with bindings := b.bindings.bind space ⟨ref, mark⟩ } := by
  have hnone : b.bindings.get? space = none := by simp [Bindings.get?, hb]
  unfold bindSpace at h
  split at h
  · obtain ⟨_, _, hfail, -⟩ := BuildM.bind_eq_ok.mp h
    exact absurd hfail fail_ne_ok
  · rename_i hreserved
    obtain ⟨_, _, hget, h⟩ := BuildM.bind_eq_ok.mp h
    cases hget
    rw [hnone] at h
    cases h
    exact ⟨by simpa using hreserved, rfl⟩

theorem Fresh.bindSpace {u : Unit} (h : Fresh resolver b)
    (hb : Builder.bindSpace space ref mark b = .ok u b') :
    space ∉ reserved ∧ Ready resolver space ref b' ∧ b'.tree = b.tree := by
  obtain ⟨hreserved, rfl⟩ := bindSpace_eq_ok hb h.bound_eq
  refine ⟨hreserved, ⟨h.scan_eq, h.trimBlanks_eq, ⟨mark, ?_⟩, ?_⟩, rfl⟩
  · simp [Bindings.bind, h.bound_eq]
  · exact .inl ⟨h.libraries_eq, h.resolver_eq⟩

-- The library of a namespace is resolved at once.
theorem Fresh.bindNamespace {library : Library} {found : Bool} (h : Fresh resolver b)
    (hl : (resolver.resolve ref).1 = .ok (some library))
    (hb : Builder.bindNamespace space ref mark b = .ok found b') :
    found = true ∧ Ready resolver space ref b' ∧ b'.tree = b.tree := by
  unfold Builder.bindNamespace at hb
  obtain ⟨_, _, hget, hb⟩ := BuildM.bind_eq_ok.mp hb
  cases hget
  rw [h.libraries_eq, List.lookup_nil, if_pos Option.isNone_none] at hb
  obtain ⟨known, b₁, hresolve, hb⟩ := BuildM.bind_eq_ok.mp hb
  obtain ⟨hknown, rfl⟩ := resolve_eq_ok hresolve
  rw [h.resolver_eq, hl] at hknown
  cases hknown
  obtain ⟨_, b₂, hmodify, hb⟩ := BuildM.bind_eq_ok.mp hb
  cases hmodify
  obtain ⟨hbound, hlibraries⟩ := libraries_addLibrary b.bindings ref.key library
  obtain ⟨_, b₃, hbind, hb⟩ := BuildM.bind_eq_ok.mp hb
  obtain ⟨-, rfl⟩ := bindSpace_eq_ok hbind (hbound.trans h.bound_eq)
  cases hb
  refine ⟨rfl, ⟨h.scan_eq, h.trimBlanks_eq, ⟨mark, ?_⟩, .inr ⟨library, ?_, hl⟩⟩, rfl⟩
  · simp only [Bindings.bind, hbound, h.bound_eq, List.nil_append]
  · simp [Bindings.bind, hlibraries, h.libraries_eq]

-- The library of the prefix has been found when a page is read to its end.
theorem finish_ready {page : Page} (hr : Ready resolver space ref b)
    (h : finish b = .ok page b') :
    page.tree = b.tree ∧ ∃ library, (resolver.resolve ref).1 = .ok (some library) := by
  obtain ⟨mark, hbound⟩ := hr.bound_eq
  unfold finish at h
  obtain ⟨_, _, hget, h⟩ := BuildM.bind_eq_ok.mp h
  cases hget
  obtain ⟨_, b₁, hloop, h⟩ := BuildM.bind_eq_ok.mp h
  rw [Bindings.spaces, hbound, List.mergeSort_singleton, List.forIn_cons] at hloop
  obtain ⟨_, b₂, hfirst, hloop⟩ := BuildM.bind_eq_ok.mp hloop
  obtain ⟨_, b₃, hdiscard, hfirst⟩ := BuildM.bind_eq_ok.mp hfirst
  obtain ⟨library, b₄, hlibrary, hdiscard⟩ := BuildM.bind_eq_ok.mp hdiscard
  cases hdiscard
  cases hfirst
  cases hloop
  obtain ⟨hres, hready, htree⟩ := libraryOf_ready hr hlibrary
  obtain ⟨_, _, hget, h⟩ := BuildM.bind_eq_ok.mp h
  cases hget
  cases h
  dsimp only
  rw [hready.trimBlanks_eq, if_neg Bool.false_ne_true]
  exact ⟨htree, library, hres⟩

end Builder

namespace Tree

-- The second node is that of the directive in front of the nodes of the shape or of the element
-- around them.
structure Carries (t : Tree) (s : Shape) : Prop where
  kind_eq : ∃ r, t.kind root = .root r
  shown : ∃ ids, Shows t 2 ids s ∧
    (t.kind 1 = .taglibDirective ∧ t.children root = 1 :: ids ∨
      t.kind 1 = .xmlRoot ∧ t.children root = [1] ∧ t.children 1 = ids)
  no_directive : ∀ i, Settings.isPageDirective (t.kind i) = false

variable {resolver : Resolver} {b : Builder} {t u : Tree} {n : Node} {s : Shape}

-- The two first nodes are not touched by what is added behind the directive, but for the root.
theorem carries_behind (h : Fresh resolver b) (hk : n.kind = .taglibDirective)
    (hopen : Opened b.tree root n t) (ha : Adds t root s u) : Carries u s := by
  obtain ⟨r, hr⟩ := h.kind_eq
  have hsize : t.size = 2 := by rw [hopen.size_eq, h.size_eq]
  obtain ⟨body, hnew⟩ := hopen.new_eq
  rw [h.size_eq] at hnew
  have hone : u.kind 1 = .taglibDirective := by
    rw [kind, ha.node_eq 1 (by omega) (by decide), hnew]
    exact hk
  have hroot : u.kind root = .root r := by
    obtain ⟨body', hbody⟩ := ha.parent_eq
    rw [kind, hbody, hopen.parent_eq]
    exact hr
  obtain ⟨ids, hids, hshow⟩ := ha.shown
  rw [hsize] at hshow
  refine ⟨⟨r, hroot⟩, ⟨ids, hshow, .inl ⟨hone, ?_⟩⟩, fun i => ?_⟩
  · rw [hids, children, hopen.parent_eq, h.children_eq, h.size_eq]
    rfl
  · rcases i with _ | _ | i
    · exact (congrArg Settings.isPageDirective hroot).trans rfl
    · exact (congrArg Settings.isPageDirective hone).trans rfl
    · exact ha.no_directive (i + 2) (by omega)

theorem carries_inside (h : Fresh resolver b) (hk : n.kind = .xmlRoot)
    (hopen : Opened b.tree root n t) (ha : Adds t 1 s u) : Carries u s := by
  obtain ⟨r, hr⟩ := h.kind_eq
  have hsize : t.size = 2 := by rw [hopen.size_eq, h.size_eq]
  obtain ⟨body, hnew⟩ := hopen.new_eq
  rw [h.size_eq] at hnew
  have hone : u.kind 1 = .xmlRoot := by
    obtain ⟨body', hbody⟩ := ha.parent_eq
    rw [kind, hbody, hnew]
    exact hk
  have hsame : u.node root = t.node root := ha.node_eq root (by rw [hsize]; decide) (by decide)
  have hroot : u.kind root = .root r := by
    rw [kind, hsame, hopen.parent_eq]
    exact hr
  obtain ⟨ids, hids, hshow⟩ := ha.shown
  have hempty := hopen.new_children
  rw [h.size_eq] at hempty
  rw [hsize] at hshow
  refine ⟨⟨r, hroot⟩, ⟨ids, hshow, .inr ⟨hone, ?_, ?_⟩⟩, fun i => ?_⟩
  · rw [children, hsame, hopen.parent_eq, h.children_eq, h.size_eq]
    rfl
  · rw [hids, hempty, List.nil_append]
  · rcases i with _ | _ | i
    · exact (congrArg Settings.isPageDirective hroot).trans rfl
    · exact (congrArg Settings.isPageDirective hone).trans rfl
    · exact ha.no_directive (i + 2) (by omega)

end Tree

namespace Relaxed

open Cursor

variable {includeUnit : Includer} {b b' : Builder} {resolver : Resolver} {space : List Char}
  {ref : LibraryRef}

theorem find?_given {attrs : List (List Char × List Char)} {read : List Attribute}
    (h : Given attrs read) (name : String) :
    Attribute.find? read name = ((attributePairs attrs).find? (·.1 == name)).map Prod.snd := by
  rw [← h.1, List.find?_map, Attribute.find?]
  simp [Function.comp_def]

theorem refAttribute_written (h : ref.isPortable) :
    isName (refAttribute ref).1 ∧ isValue (refAttribute ref).2 := by
  cases ref with
  | uri address =>
    simp only [LibraryRef.isPortable, Bool.and_eq_true] at h
    rw [refAttribute, refName]
    exact ⟨show isName "uri".toList by decide, h.1.1⟩
  | tagDirectory directory =>
    rw [refAttribute, refName]
    exact ⟨show isName "tagdir".toList by decide, h⟩

theorem libraryRef_given {read : List Attribute} {mark : Mark}
    (h : Given [("prefix".toList, space), refAttribute ref] read) :
    libraryRef read mark b = .ok ref b := by
  unfold libraryRef
  rw [find?_given h, find?_given h]
  cases ref with
  | uri address =>
    simp [attributePairs, refAttribute, refName]
    rfl
  | tagDirectory directory =>
    simp [attributePairs, refAttribute, refName]
    rfl

theorem addDirective_taglib {read : List Attribute} {parent id : Nat} {mark : Mark}
    (hf : Fresh resolver b) (hg : Given [("prefix".toList, space), refAttribute ref] read)
    (hp : parent < b.tree.size)
    (h : addDirective includeUnit parent "taglib" read mark b = .ok id b') :
    String.ofList space ∉ reserved ∧ Ready resolver (String.ofList space) ref b' ∧
      ∃ n, n.kind = .taglibDirective ∧ Opened b.tree parent n b'.tree := by
  have hwritten : Attribute.find? read "prefix" = some (String.ofList space) := by
    rw [find?_given hg]
    simp [attributePairs]
  unfold addDirective at h
  obtain ⟨_, b₁, hdistinct, h⟩ := BuildM.bind_eq_ok.mp h
  rw [checkDistinct_eq_ok hdistinct] at h
  obtain ⟨written, b₂, hrequired, h⟩ := BuildM.bind_eq_ok.mp h
  rw [required, hwritten] at hrequired
  cases hrequired
  obtain ⟨found, b₃, href, h⟩ := BuildM.bind_eq_ok.mp h
  rw [libraryRef_given hg] at href
  cases href
  obtain ⟨_, b₄, hbind, h⟩ := BuildM.bind_eq_ok.mp h
  obtain ⟨hreserved, hready, htree⟩ := hf.bindSpace hbind
  cases h
  rw [← htree] at hp ⊢
  exact ⟨hreserved, hready.withTree _, _, rfl, opened_append hp rfl⟩

theorem Going.directive {s : State} {fuel : Nat} {tail : List Char} (hs : isPortableSpace space)
    (href : ref.isPortable) (hf : Fresh resolver b) (ht : s.text = [])
    (h : Going includeUnit Tree.root b' []
      ('<' :: '%' :: '@' :: ' ' :: ("taglib".toList ++
        (attributesText [("prefix".toList, space), refAttribute ref] ++
          ' ' :: '%' :: '>' :: tail))) fuel s b) :
    ∃ n s' b₁, Going includeUnit Tree.root b' [] tail n s' b₁ ∧ s'.text = [] ∧
      String.ofList space ∉ reserved ∧ Ready resolver (String.ofList space) ref b₁ ∧
      ∃ n, n.kind = .taglibDirective ∧ Opened b.tree Tree.root n b₁.tree := by
  obtain ⟨attrs, hattrs⟩ : ∃ attrs, attrs = [("prefix".toList, space), refAttribute ref] := ⟨_, rfl⟩
  have hwritten : ∀ a ∈ attrs, isName a.1 ∧ isValue a.2 := by
    rw [hattrs]
    simp only [List.mem_cons, List.not_mem_nil, or_false, forall_eq_or_imp, forall_eq]
    exact ⟨⟨by decide, isValue_of_isName (isPortableSpace_iff.mp hs).1⟩, refAttribute_written href⟩
  rw [← hattrs] at h
  obtain ⟨n, next, b₂, rfl, hstep, hrun⟩ := h.step
  have hrest := h.rest_eq
  obtain ⟨behind, hbehind⟩ : ∃ behind, behind = attributesText attrs ++ ' ' :: '%' :: '>' :: tail :=
    ⟨_, rfl⟩
  rw [← hbehind] at hrest
  have hc := construct?_directive b.bindings (' ' :: ("taglib".toList ++ behind))
  obtain ⟨b₁, s', hflush, hread, rfl⟩ :=
    step_construct (by rw [hrest]; simp) (by rw [hrest]; simp) (by rw [hrest]; exact hc) hstep
  rw [flush, ht] at hflush
  cases hflush
  -- The name, the attributes and the end are behind each other.
  obtain ⟨c, hcursor⟩ : ∃ c, c = s.cursor.moveTo (' ' :: ("taglib".toList ++ behind)) := ⟨_, rfl⟩
  have hskip : c.skipBlanks.rest = "taglib".toList ++ behind := by
    have hmoved : c.rest = ' ' :: ("taglib".toList ++ behind) := by
      rw [hcursor]
      exact rest_moveTo (show s.cursor.rest = ['<', '%', '@'] ++ _ from hrest)
    rw [Cursor.skipBlanks, hmoved]
    simp [show isBlank ' ' = true by decide, show isBlank 't' = false by decide]
  have hstops : Stops behind := by
    rw [hbehind]
    exact stops_attributesText attrs (stops_cons (by decide) _)
  obtain ⟨c₁, hname, hc₁⟩ := readName?_name hskip (by decide) hstops
  obtain ⟨read, c₂, hattributes, hc₂, hgiven⟩ := readAttributes_written s.cursor.mark
    (fun x hx => ⟨'%', ['>'], by rw [List.mem_singleton.mp hx]; rfl, by decide⟩)
    (meetsEnd_percent tail) hwritten (hc₁.trans hbehind) b
  rw [← hcursor, readConstruct] at hread
  obtain ⟨_, _, hfirst, hread⟩ := BuildM.bind_eq_ok.mp hread
  rw [readDirectiveName, hname] at hfirst
  cases hfirst
  obtain ⟨_, _, hsecond, hread⟩ := BuildM.bind_eq_ok.mp hread
  rw [hattributes] at hsecond
  cases hsecond
  obtain ⟨_, b₃, hdiscard, hread⟩ := BuildM.bind_eq_ok.mp hread
  cases hread
  obtain ⟨id, b₄, hadd, hdiscard⟩ := BuildM.bind_eq_ok.mp hdiscard
  cases hdiscard
  rw [hattrs] at hgiven
  have hroot : Tree.root < b.tree.size := by
    rw [hf.size_eq]
    decide
  have hparent : s.parent Tree.root = Tree.root := h.parent_eq
  rw [hparent] at hadd
  obtain ⟨hreserved, hready, hnode⟩ := addDirective_taglib hf hgiven hroot hadd
  refine ⟨n, _, b₂, ⟨hrun, hc₂, ?_, h.frames_eq⟩, rfl, hreserved, hready, hnode⟩
  have hlength := h.lt_fuel
  simp only [List.length_cons, List.length_append] at hlength
  omega

-- The last of the text is made into nodes at the end of the unit.
theorem Going.finish {s : State} {fuel : Nat} (h : Going includeUnit Tree.root b' [] [] fuel s b) :
    flush s Tree.root b = .ok () b' := by
  obtain ⟨n, next, b₁, rfl, hstep, hrun⟩ := h.step
  have hclosed : (do
      let frame ← s.frames.head?
      return (frame, ← s.cursor.endTag? frame.name) : Option (Frame × Cursor)) = none := by
    rw [h.frames_eq]
    rfl
  have hend : s.cursor.atEnd := by
    rw [Cursor.atEnd, h.rest_eq]
    rfl
  unfold Relaxed.step at hstep
  dsimp only at hstep
  rw [hclosed, hend] at hstep
  dsimp only at hstep
  rw [if_pos rfl, h.frames_eq] at hstep
  obtain ⟨_, b₂, hflush, hstep⟩ := BuildM.bind_eq_ok.mp hstep
  cases hstep
  rw [hrun]
  exact hflush

theorem read_carries {template : Template} (hs : isPortableSpace space) (href : ref.isPortable)
    (hlegal : template.isLegal) (hstructured : Structured resolver ref template.actions)
    (hf : Fresh resolver b) {unit : String}
    (h : read includeUnit Tree.root unit (pageText space ref template) b = .ok () b') :
    Usable space ∧ Ready resolver (String.ofList space) ref b' ∧
      Carries b'.tree (template.shape true space []) := by
  have hstart : Going includeUnit Tree.root b' [] (pageText space ref template) _ _ b :=
    ⟨h, rfl, Nat.lt_succ_self _, rfl⟩
  have htext : pageText space ref template = '<' :: '%' :: '@' :: ' ' :: ("taglib".toList ++
      (attributesText [("prefix".toList, space), refAttribute ref] ++
        ' ' :: '%' :: '>' :: (template.write scriptCode space ++ []))) := by
    have hopening : "<%@ taglib".toList = '<' :: '%' :: '@' :: ' ' :: "taglib".toList := by simp
    have hclosing : " %>".toList = [' ', '%', '>'] := by simp
    unfold pageText
    rw [hopening, hclosing, List.append_nil]
    simp only [List.cons_append, List.nil_append]
  rw [htext] at hstart
  obtain ⟨n, s₁, b₁, hgoing, hempty, hreserved, hready, node, hkind, hopen⟩ :=
    hstart.directive hs href hf rfl
  have hu : Usable space := by
    refine ⟨hs, ?_⟩
    rintro rfl
    exact hreserved (by decide)
  obtain ⟨n, s₂, b₂, hgoing, hflush⟩ := hgoing.template hu hlegal hstructured hready
    (by rw [hopen.size_eq]; exact Nat.succ_pos _)
  have hext := hflush _ _ hgoing.finish
  rw [hempty] at hext
  exact ⟨hu, hext.ready, carries_behind hf hkind hopen hext.adds⟩

end Relaxed

namespace Strict

theorem withoutStart?_append (start : String) (rest : List Char) :
    withoutStart? start (String.ofList (start.toList ++ rest)) = some (String.ofList rest) := by
  rw [withoutStart?, String.toList_ofList, stripStart?_append]
  rfl

theorem withoutStart?_eq_none {start s : String} (h : begins start s = false) :
    withoutStart? start s = none := by
  rw [begins, startsWith, Option.isSome_eq_false_iff, Option.isNone_iff_eq_none] at h
  rw [withoutStart?, h]
  rfl

variable {x : Context} {b b' : Builder} {resolver : Resolver} {space : List Char}
  {ref : LibraryRef} {version : List Char}

theorem isValue_refUri (h : ref.isPortable) : isValue (refUri ref) := by
  cases ref with
  | uri address =>
    simp only [LibraryRef.isPortable, Bool.and_eq_true] at h
    exact h.1.1
  | tagDirectory directory => exact lacks_append (by decide) h

theorem rootAttributes_written (hs : isPortableSpace space) (href : ref.isPortable)
    (hv : isValue version) : ∀ a ∈ rootAttributes space ref version, isName a.1 ∧ isValue a.2 := by
  have hname : isName ("xmlns:".toList ++ space) :=
    isName_append (by decide) (isPortableSpace_iff.mp hs).1
  simp only [rootAttributes, List.mem_cons, List.not_mem_nil, or_false, forall_eq_or_imp, forall_eq]
  exact ⟨⟨by decide, by decide⟩, ⟨hname, isValue_refUri href⟩, by decide, hv⟩

theorem declareOne_standard {mark : Mark} {d d' : Declared} {a : Attribute}
    (hname : a.name = "xmlns:jsp") (hvalue : a.value = standardUri)
    (h : declareOne mark d a b = .ok d' b') :
    b' = b ∧ d' = { d with standard := standardSpace :: d.standard } := by
  unfold declareOne at h
  rw [hname, show withoutStart? "xmlns:" "xmlns:jsp" = some standardSpace by decide, hvalue] at h
  cases h
  exact ⟨rfl, rfl⟩

-- The prefix is bound, whichever way its library is named.
theorem declareOne_library {library : Library} {mark : Mark} {d d' : Declared} {a : Attribute}
    (href : ref.isPortable) (hf : Fresh resolver b)
    (hl : (resolver.resolve ref).1 = .ok (some library))
    (hname : a.name = String.ofList ("xmlns:".toList ++ space))
    (hvalue : a.value = String.ofList (refUri ref))
    (h : declareOne mark d a b = .ok d' b') :
    d' = d ∧ Ready resolver (String.ofList space) ref b' ∧ b'.tree = b.tree := by
  unfold declareOne at h
  rw [hname, withoutStart?_append, hvalue] at h
  cases ref with
  | uri address =>
    simp only [LibraryRef.isPortable, Bool.and_eq_true, bne_iff_ne, Bool.not_eq_true'] at href
    rw [refUri, String.ofList_toList] at h
    dsimp only at h
    rw [if_neg href.1.2, withoutStart?_eq_none href.2] at h
    obtain ⟨found, b₁, hbind, h⟩ := BuildM.bind_eq_ok.mp h
    obtain ⟨rfl, hready, htree⟩ := hf.bindNamespace hl hbind
    cases h
    exact ⟨rfl, hready, htree⟩
  | tagDirectory directory =>
    have hne : String.ofList (directoryUrn.toList ++ directory.toList) ≠ standardUri := by
      intro heq
      have hurn := withoutStart?_append directoryUrn directory.toList
      rw [heq, show withoutStart? directoryUrn standardUri = none by decide] at hurn
      cases hurn
    rw [refUri] at h
    dsimp only at h
    rw [if_neg hne, withoutStart?_append, String.ofList_toList] at h
    obtain ⟨_, b₁, hbind, h⟩ := BuildM.bind_eq_ok.mp h
    obtain ⟨-, hready, htree⟩ := hf.bindSpace hbind
    cases h
    exact ⟨rfl, hready, htree⟩

theorem declare_root {library : Library} {mark : Mark} {read : List Attribute} {d : Declared}
    (href : ref.isPortable) (hf : Fresh resolver b)
    (hl : (resolver.resolve ref).1 = .ok (some library))
    (hg : Given (rootAttributes space ref version) read)
    (h : declare [standardSpace] read mark b = .ok d b') :
    d.standard = [standardSpace, standardSpace] ∧ Ready resolver (String.ofList space) ref b' ∧
      b'.tree = b.tree := by
  obtain ⟨hpairs, -⟩ := hg
  simp only [rootAttributes, attributePairs, List.map_cons, List.map_nil, List.map_eq_cons_iff,
    List.map_eq_nil_iff, Prod.mk.injEq] at hpairs
  obtain ⟨a₁, _, rfl, ⟨hname₁, hvalue₁⟩, a₂, _, rfl, ⟨hname₂, hvalue₂⟩, a₃, _, rfl,
    ⟨hname₃, -⟩, rfl⟩ := hpairs
  unfold declare at h
  rw [List.foldlM_cons] at h
  obtain ⟨d₁, b₁, h₁, h⟩ := BuildM.bind_eq_ok.mp h
  rw [List.foldlM_cons] at h
  obtain ⟨d₂, b₂, h₂, h⟩ := BuildM.bind_eq_ok.mp h
  rw [List.foldlM_cons] at h
  obtain ⟨d₃, b₃, h₃, h⟩ := BuildM.bind_eq_ok.mp h
  cases h
  rw [String.ofList_toList] at hname₁ hvalue₁ hname₃
  obtain ⟨rfl, rfl⟩ := declareOne_standard hname₁ hvalue₁ h₁
  obtain ⟨rfl, hready, htree⟩ := declareOne_library href hf hl hname₂ hvalue₂ h₂
  obtain ⟨rfl, rfl⟩ := declareOne_plain (by rw [hname₃]; decide) (by rw [hname₃]; decide) h₃
  exact ⟨rfl, hready, htree⟩

theorem startAction_root {attrs : List Attribute} {mark : Mark} {id : Nat}
    (h : startAction Tree.root "jsp:root" attrs mark .strict b = .ok id b') :
    id = b.tree.size ∧ ∃ n, n.kind = .xmlRoot ∧ n.children = [] ∧
      b' = { b with tree := (b.tree.append Tree.root n).2 } := by
  unfold startAction at h
  obtain ⟨_, b₁, hdistinct, h⟩ := BuildM.bind_eq_ok.mp h
  rw [checkDistinct_eq_ok hdistinct,
    show cutString? ':' "jsp:root" = some (standardSpace, "root") by decide] at h
  dsimp only [Option.getD_some] at h
  rw [if_pos rfl] at h
  obtain ⟨kind, b₂, hkind, h⟩ := BuildM.bind_eq_ok.mp h
  unfold standardKind at hkind
  obtain ⟨_, _, hget, hkind⟩ := BuildM.bind_eq_ok.mp hkind
  cases hget
  split at hkind
  · cases hkind
    obtain ⟨rfl, rfl⟩ := append_eq_ok h
    exact ⟨rfl, _, rfl, rfl, rfl⟩
  · exact absurd hkind fail_ne_ok

theorem startElement_root {library : Library} (hs : isPortableSpace space) (href : ref.isPortable)
    (hv : isValue version) (hf : Fresh resolver b)
    (hl : (resolver.resolve ref).1 = .ok (some library)) (hx : x.root = Tree.root)
    {offset : Nat} {s' : State}
    (h : startElement x {} (tagText "jsp:root".toList (rootAttributes space ref version)) offset
      true b = .ok s' b') :
    ∃ n mark, n.kind = .xmlRoot ∧ Opened b.tree Tree.root n b'.tree ∧
      Ready resolver (String.ofList space) ref b' ∧
      s' = { frames := [⟨1, "jsp:root", .markup, mark⟩]
             standard := [standardSpace, standardSpace] } := by
  have hname : isName "jsp:root".toList := by decide
  have htag : String.ofList (Markup.StartTag.name
      (tagText "jsp:root".toList (rootAttributes space ref version))) = "jsp:root" := by
    rw [(Markup.span_tagText hname _).1, String.ofList_toList]
  have hcut : cutString? ':' "jsp:root" = some (standardSpace, "root") := by decide
  rw [← htag] at hcut
  obtain ⟨mark, read, declared, b₁, b₂, hread, hdeclare, hstart, -⟩ := startElement_eq_ok h hcut
  obtain ⟨rfl, hgiven⟩ := readAttributes_given hname (rootAttributes_written hs href hv) hread
  obtain ⟨hstandard, hready, htree⟩ := declare_root href hf hl hgiven hdeclare
  rw [hstandard, htag] at hstart
  obtain ⟨id, content, b₃, hnode, henter⟩ := hstart (by simp)
  unfold startStandard at hnode
  rw [show withoutStart? "directive." "root" = none by decide] at hnode
  obtain ⟨id₁, b₄, haction, hnode⟩ := BuildM.bind_eq_ok.mp hnode
  cases hnode
  have hparent : State.parent {} x = Tree.root := hx
  rw [hparent] at haction
  obtain ⟨rfl, n, hkind, hchildren, rfl⟩ := startAction_root haction
  cases henter
  have hsize : b₂.tree.size = 1 := by rw [htree, hf.size_eq]
  have hroot : Tree.root < b₂.tree.size := by
    rw [hsize]
    decide
  have hopen := (opened_append hroot hchildren).openBody hroot
  refine ⟨n, mark, hkind, ?_, hready.withTree _, ?_⟩
  · rw [← htree]
    exact hopen
  · rw [hsize]
    rfl

-- Nothing is left to do behind the last element.
theorem Going.finish {s : State} (h : Going x b' [] [] s b) (hs : s.pending = []) : b' = b := by
  obtain ⟨offset, hread⟩ := h.read_eq
  have hdone : flush x s b = .ok s b := by
    unfold flush
    rw [hs]
    rfl
  rw [Markup.readFrom] at hread
  unfold readOn at hread
  rw [List.foldlM_nil, pure_bind] at hread
  obtain ⟨u₁, b₁, hend, hread⟩ := BuildM.bind_eq_ok.mp hread
  obtain ⟨s₂, b₂, hflush, hread⟩ := BuildM.bind_eq_ok.mp hread
  rw [readEnd_eq_ok hend, hdone] at hflush
  cases hflush
  rw [h.frames_eq] at hread
  cases hread
  rfl

theorem read_carries {template : Template} {library : Library} (hu : Usable space)
    (href : ref.isPortable) (hv : isValue version) (hlegal : template.isLegal)
    (hstructured : Structured resolver ref template.actions) (hf : Fresh resolver b)
    (hl : (resolver.resolve ref).1 = .ok (some library)) {includeUnit : Includer} {unit : String}
    (h : read includeUnit false Tree.root unit (pageText space ref version template) b =
      .ok () b') :
    Ready resolver (String.ofList space) ref b' ∧
      Carries b'.tree (template.shape false space []) := by
  obtain ⟨x, hx⟩ : ∃ x : Context, x =
    ⟨Tree.root, unit, pageText space ref version template, false, includeUnit⟩ := ⟨_, rfl⟩
  have hstart : Going x b' [] (pageText space ref version template) {} b := by
    refine ⟨⟨0, ?_⟩, rfl, by simp⟩
    rw [read, readDocument_eq, ← hx] at h
    exact h
  rw [pageText] at hstart
  obtain ⟨start, stop, s₁, b₁, s₂, b₂, hflush, helement, hread⟩ :=
    hstart.opening (by decide) (rootAttributes_written hu.portable href hv)
      (fun depth hc => by cases hc)
  cases hflush
  obtain ⟨n, mark, hkind, hopen, hready, rfl⟩ :=
    startElement_root hu.portable href hv hf hl (by rw [hx]) helement
  have hgoing : Going x b' [⟨1, "jsp:root", .markup, mark⟩]
      ([] ++ (template.write scriptElement space ++ endTagText "jsp:root".toList)) _ b₂ :=
    ⟨⟨stop, hread⟩, rfl, by simp⟩
  have hsize : b₂.tree.size = 2 := by rw [hopen.size_eq, hf.size_eq]
  rw [endTagText] at hgoing
  obtain ⟨s₃, b₃, hgoing, hlast⟩ := hgoing.template hu hlegal hstructured [] rfl rfl rfl
    (by rw [hx]) hready (by rw [hsize]; exact Nat.lt_succ_self 1)
  rw [← List.append_nil ('<' :: _), ← endTagText] at hgoing
  obtain ⟨s₄, b₄, s₅, b₅, hflush, hclose, hgoing, hempty⟩ :=
    hgoing.closing (by decide) (fun depth hc => by cases hc)
  have hext := hlast _ _ hflush
  have hadds : Adds b₂.tree b.tree.size (template.shape false space []) b₄.tree := by
    rw [hf.size_eq]
    exact hext.adds
  obtain ⟨body, hnode⟩ := hopen.new_node hadds
  have hshown := hopen.new_shown hadds
  rw [hf.size_eq] at hnode hshown
  have hroot : b₄.tree.kind 1 = .xmlRoot := by
    rw [kind, hnode]
    exact hkind
  rw [close_markup (by rw [hroot]; rfl)] at hclose
  have hfinish := finishElement_eq (by rw [hroot]; rfl)
    (fun c hc => hshown.isNamed_eq_false hc) hclose
  rw [hgoing.finish hempty, hfinish]
  exact ⟨hext.ready, carries_inside hf hkind hopen hext.adds⟩

end Strict

end PageCompiler
