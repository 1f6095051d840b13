import PageCompiler.Proofs.Reading.Trimming
import PageCompiler.Proofs.Reading.VerbatimBodies

namespace PageCompiler

open Text
open Markup (Covers)

namespace Page

open Builder

variable {o : Options} {loader : Loader} {resolver resolver' : Resolver} {name : String}
  {page : Page} {b b' : Builder}

-- The documents that can be loaded, if their events cover them.
def Document (o : Options) (loader : Loader) : Documents := fun unit text =>
  ∃ data, Loaded o loader data text ∧ data.unit = unit ∧ data.form = .strict ∧
    Covers 0 text (Markup.read text).events

-- A unit that has been loaded is put under its root, and nowhere else.
def ReadsSparing (o : Options) (loader : Loader) (reader : UnitReader) : Prop :=
  ∀ {root : NodeId} {data : UnitRoot} {text : List Char}, Loaded o loader data text →
    Relates (Touches (Document o loader) none root) (reader root data.unit text data.form)

theorem touches_includeUnit {reader : UnitReader} (hr : ReadsSparing o loader reader)
    (parent : NodeId) (target : String) (origin : UnitOrigin) (mark : Mark) :
    Relates (Touches (Document o loader) none parent)
      (includeUnit o loader reader parent target origin mark) := by
  intro b root b' h hparent
  unfold includeUnit at h
  obtain ⟨⟨root', unit, text, form⟩, b₂, henter, hrest⟩ := BuildM.bind_eq_ok.mp h
  obtain ⟨-, -, data, b₁, hloaded, rfl, rfl, -, hstill, happend⟩ := enterUnit_eq_ok henter
  obtain ⟨_, b₃, hread, hend⟩ := BuildM.bind_eq_ok.mp hrest
  cases hend
  have hb₁ : b.tree.Spares (Document o loader) none b₁.tree := hstill.spares
  obtain ⟨hb₂, hroot, hcustom⟩ := append_spares happend (hb₁.free hparent) rfl rfl
  exact hb₁.trans (hb₂.trans (hr hloaded hread ⟨hroot, .inr (Node.loose_of_custom? hcustom)⟩))

theorem readLevel_sparing {inner : UnitReader} (hinner : ReadsSparing o loader inner)
    (hstages : ReadsStages o loader inner) : ReadsSparing o loader (readLevel o loader inner) := by
  intro root data text hloaded b u b' h hroot
  have hi : IncludesSparing (Document o loader) (includeUnit o loader inner) :=
    fun parent target mark => touches_includeUnit hinner parent target .included mark
  unfold readLevel at h
  obtain ⟨_, _, hget, h⟩ := BuildM.bind_eq_ok.mp h
  cases hget
  obtain ⟨_, _, henter, h⟩ := BuildM.bind_eq_ok.mp h
  cases henter
  cases hform : data.form with
  | relaxed =>
    rw [hform] at h
    obtain ⟨_, b₁, hread, h⟩ := BuildM.bind_eq_ok.mp h
    cases h
    have hunit : ∀ text, ¬Document o loader data.unit text := by
      rintro text' ⟨data', hloaded', hunit, hstrict, -⟩
      obtain ⟨-, -, heq⟩ := hloaded.unique hloaded' hunit
      rw [hstrict, hform] at heq
      cases heq
    have htouches := Relaxed.touches_read hi text hunit hread
    exact htouches hroot
  | strict =>
    rw [hform] at h
    obtain ⟨_, b₁, hread, h⟩ := BuildM.bind_eq_ok.mp h
    cases h
    have hx : Strict.Context.Reads
        { root, unit := data.unit, text, keepBlanks := o.preserveXmlWhitespace
          includeUnit := includeUnit o loader inner } (Loaded o loader) data :=
      ⟨includeUnit_stages hstages, rfl, hform, hloaded⟩
    have htells : Strict.Context.Tells
        { root, unit := data.unit, text, keepBlanks := o.preserveXmlWhitespace
          includeUnit := includeUnit o loader inner } (Document o loader) := by
      refine ⟨hi, ?_⟩
      rintro text' ⟨data', hloaded', hunit, -, hcovers⟩
      obtain ⟨rfl, -, -⟩ := hloaded.unique hloaded' hunit
      exact ⟨rfl, hcovers⟩
    have hextends := (Strict.readDocument_stages hx hread).extends
    have hbodies := Strict.readDocument_bodiesKept htells hread hroot
    exact ⟨hextends, hbodies⟩

-- By induction on how deep units may still include each other.
theorem readUnit_sparing (o : Options) (loader : Loader) (depth : Nat) :
    ReadsSparing o loader (readUnit o loader depth) := by
  induction depth with
  | zero => exact fun _ => .fail _ _
  | succ depth ih => exact readLevel_sparing ih (readUnit_stages o loader depth)

-- All bodies of a page that are left as they are have been read when its units have.
theorem ReadTo.bodiesKept (h : ReadTo o loader resolver name b) :
    b.tree.BodiesKept (Document o loader) none := by
  obtain ⟨data, text, hloaded, -, -, -, hunits⟩ := h
  obtain ⟨_, b₁, _, b₂, _, hprelude, hread, hcoda⟩ := readUnits_eq_ok hunits
  have hr : ReadsSparing o loader (readUnit o loader (loader.capacity + 1)) :=
    readUnit_sparing o loader _
  have hroot : (Tree.ofRoot data (String.ofList text)).Free (Document o loader) none Tree.root :=
    ⟨Nat.zero_lt_one, .inr (Node.loose_of_custom? rfl)⟩
  have hstart : (Tree.ofRoot data (String.ofList text)).BodiesKept (Document o loader) none := by
    refine ⟨Tree.wellFormed_ofRoot .., fun id hid _ htakes => absurd htakes ?_⟩
    obtain rfl : id = Tree.root := Nat.lt_one_iff.mp hid
    exact Node.not_takesVerbatim rfl
  have hunit := touches_includeUnit hr Tree.root
  have hb₁ := Relates.forIn (fun name => hunit name .prelude _) _ hprelude hroot
  have hb₂ := hb₁.trans (hr hloaded hread (hb₁.free hroot))
  have hb₃ := Relates.forIn (fun name => hunit name .coda _) _ hcoda (hb₂.free hroot)
  exact (hb₂.trans hb₃).bodies hstart

-- Blank text is not trimmed when the units of the page have been read.
def KeepsBlanks (o : Options) (loader : Loader) (resolver : Resolver) (name : String) : Prop :=
  ∃ b, ReadTo o loader resolver name b ∧ b.trimBlanks = false

-- It is kept unless the options or a page directive say otherwise.
theorem keepsBlanks_of_read (h : read o loader resolver name = (.ok page, resolver'))
    (ho : o.trimDirectiveWhitespaces = false)
    (hnone : ∀ id < page.tree.size, page.tree.kind id = .pageDirective →
      ∀ a ∈ (page.tree.node id).attributes, a.name = trimName → isTrue a.value = false) :
    KeepsBlanks o loader resolver name := by
  obtain ⟨b, b', hb, hfinish⟩ := readTo_of_read h
  have halike := (finish_eq_ok hfinish).2
  refine ⟨b, hb, ?_⟩
  rcases hb.trimTold with ⟨id, hid, hkind, a, ha, hname, hvalue⟩ | ⟨hconfigured, -⟩
  · rw [← (halike.node id).attributes_eq] at ha
    rw [← hvalue]
    exact hnone id (halike.size_eq ▸ hid) ((halike.extends.pageDirective_iff hid).mpr hkind) a ha
      hname
  · exact hconfigured.trans ho

-- Then the tree stays as it has been read.
theorem KeepsBlanks.readTo (hb : KeepsBlanks o loader resolver name)
    (h : read o loader resolver name = (.ok page, resolver')) :
    ∃ b, ReadTo o loader resolver name b ∧ page.tree = b.tree := by
  obtain ⟨b, hread, htrim⟩ := hb
  obtain ⟨b₁, b', hread₁, hfinish⟩ := readTo_of_read h
  obtain rfl := hread₁.unique hread
  refine ⟨b, hread, ?_⟩
  rw [tree_of_finish hfinish, htrim]
  rfl

-- In a document of such a page, the body of an action that is left as it is, if it has one, is
-- what is written between the tag that opens the action and the one that closes it.
theorem verbatim_bodies_read (h : read o loader resolver name = (.ok page, resolver'))
    (hblanks : KeepsBlanks o loader resolver name) {id : NodeId} {data : CustomAction}
    (hdata : page.tree.kind id = .custom data) (hverbatim : data.tag.bodyContent = .verbatim)
    {root : UnitRoot} (hroot : page.tree.kind (page.tree.unitRoot id) = .root root)
    (hform : root.form = .strict) :
    ∃ text, Loaded o loader root text ∧
      (Covers 0 text (Markup.read text).events → page.tree.BodyKept id root.unit text) := by
  have hid : id < page.tree.size :=
    (wellFormed_read h).lt_size_of_mem_preorder (mem_preorder_of_custom (arranged_read h) hdata)
  obtain ⟨root', text, hroot', hmark, hloaded⟩ := unitRoot_read h hid
  rw [hroot] at hroot'
  cases hroot'
  refine ⟨text, hloaded, fun hcovers => ?_⟩
  have htakes : (page.tree.node id).TakesVerbatim := by
    rw [Node.TakesVerbatim, show (page.tree.node id).kind = .custom data from hdata, ← hverbatim]
    rfl
  obtain ⟨b, hread, htree⟩ := hblanks.readTo h
  have hbodies := hread.bodiesKept
  rw [← htree] at hbodies
  have hkept := hbodies.kept id hid (Option.some_ne_none id).symm htakes text
  rw [hmark] at hkept
  exact hkept ⟨root, hloaded, rfl, hform, hcovers⟩

end Page

-- An action whose body is left as it is.
def rawLibrary : Library :=
  { uri := "urn:sample", shortName := "sample"
    tags := [{ name := "raw", handlerClass := "sample.RawTag", bodyContent := .verbatim }] }

-- Its body holds an element of its own name.
def rawText : String :=
  "<s:raw xmlns:s=\"urn:sample\">a<s:raw>&lt;</s:raw><!--b--><![CDATA[c]]>$\x7bd\x7d</s:raw>"

def rawUnits : Loader := .ofUnits [("main.pagx", Utf8.ofString rawText)]

theorem Page.verbatim_bodies_read_sample :
    ∃ page resolver root text,
      Page.read {} rawUnits (.ofLibraries [rawLibrary]) "main.pagx" = (.ok page, resolver) ∧
      Page.KeepsBlanks {} rawUnits (.ofLibraries [rawLibrary]) "main.pagx" ∧
      page.tree.kind (page.tree.unitRoot 1) = .root root ∧ Page.Loaded {} rawUnits root text ∧
      Covers 0 text (Markup.read text).events ∧ page.tree.BodyKept 1 root.unit text ∧
      (page.tree.children 1).map (fun c => (page.tree.kind c).run?.map TextRun.text) =
        [some "a<s:raw>&lt;</s:raw><!--b--><![CDATA[c]]>$\x7bd\x7d"] := by
  have hrun : Page.passes {} rawUnits (.ofLibraries [rawLibrary]) "main.pagx" (fun page =>
      ((page.tree.kind 1).custom?.any fun data => data.tag.bodyContent == .verbatim) &&
      ((page.tree.kind (page.tree.unitRoot 1)).root?.any fun root =>
        root.form == .strict && root.unit == "/main.pagx") &&
      !((List.range page.tree.size).any fun id =>
        Settings.isPageDirective (page.tree.kind id)) &&
      (page.tree.children 1).map (fun c => (page.tree.kind c).run?.map TextRun.text) ==
        [some "a<s:raw>&lt;</s:raw><!--b--><![CDATA[c]]>$\x7bd\x7d"]) := by
    rw [rawUnits, rawText, Utf8.ofString_ofList]
    decide +kernel
  obtain ⟨page, resolver, h, htest⟩ := Page.of_passes hrun
  simp only [Bool.and_eq_true, Option.any_eq_true, beq_iff_eq, Bool.not_eq_true',
    List.any_eq_false] at htest
  obtain ⟨⟨⟨⟨data, hdata, hverbatim⟩, root, hroot, hform, hunit⟩, hnone⟩, hbody⟩ := htest
  rw [NodeKind.custom?_eq_some] at hdata
  rw [NodeKind.root?_eq_some] at hroot
  have hblanks : Page.KeepsBlanks {} rawUnits (.ofLibraries [rawLibrary]) "main.pagx" := by
    refine Page.keepsBlanks_of_read h rfl fun id hid hkind => ?_
    exact absurd (Settings.isPageDirective_iff.mpr hkind) (hnone id (List.mem_range.mpr hid))
  obtain ⟨text, hloaded, hkept⟩ :=
    Page.verbatim_bodies_read h hblanks hdata hverbatim hroot hform
  have htext : text.head?.all fun c => c.toNat ≠ 0xFEFF := by
    obtain ⟨bytes, hload, hdecode⟩ := hloaded.load
    rw [hunit] at hload hdecode
    obtain rfl : Utf8.ofString rawText = bytes := Except.ok.inj hload
    have hhead : (Encoding.decode "/main.pagx" (Utf8.ofString rawText) none
        "UTF-8").toOption.any (fun decoded =>
          decoded.text.head?.all fun c => c.toNat ≠ 0xFEFF) := by
      rw [rawText, Utf8.ofString_ofList]
      decide +kernel
    rwa [hdecode] at hhead
  have hcovers := Markup.covers_read htext
  exact ⟨page, resolver, root, text, h, hblanks, hroot, hloaded, hcovers, hkept hcovers, hbody⟩

end PageCompiler
