import PageCompiler.Proofs.Checking.Reconciling
import PageCompiler.Proofs.Reading.PageStages

-- The first declaration of a unit is held against the stronger signs of the unit, and every later
-- one against the first. As UTF-16 agrees with either byte order, that is less than holding every
-- declaration against the signs.
namespace PageCompiler

open Text

namespace Encoding

theorem same_iff {a b : String} :
    same a b ↔ canonical a = canonical b ∨
      begins "UTF-16" (canonical a) ∧ canonical b = "UTF-16" ∨
      begins "UTF-16" (canonical b) ∧ canonical a = "UTF-16" := by
  simp only [same, Bool.or_eq_true, Bool.and_eq_true, beq_iff_eq, or_assoc]

theorem same_refl (a : String) : same a a := same_iff.mpr (.inl rfl)

-- Names that agree with one name agree with each other, unless that name leaves the byte order
-- open.
theorem same_of_same {first a b : String} (ha : same first a) (hb : same first b) :
    same a b ∨ canonical first = "UTF-16" ∧ begins "UTF-16" (canonical a) ∧
      begins "UTF-16" (canonical b) := by
  rcases same_iff.mp ha with ha | ⟨ha, ha'⟩ | ⟨ha, ha'⟩
  · refine .inl (same_iff.mpr ?_)
    rw [← ha]
    exact same_iff.mp hb
  · left
    rcases same_iff.mp hb with hb | ⟨-, hb⟩ | ⟨hb, -⟩
    · exact same_iff.mpr (.inr (.inr ⟨hb ▸ ha, ha'⟩))
    · exact same_iff.mpr (.inl (ha'.trans hb.symm))
    · exact same_iff.mpr (.inr (.inr ⟨hb, ha'⟩))
  · rcases same_iff.mp hb with hb | ⟨-, hb⟩ | ⟨hb, -⟩
    · exact .inl (same_iff.mpr (.inr (.inl ⟨ha, hb.symm.trans ha'⟩)))
    · exact .inl (same_iff.mpr (.inr (.inl ⟨ha, hb⟩)))
    · exact .inr ⟨ha', ha, hb⟩

end Encoding

-- What is known about the encoding of a unit before its text is.
def EncodingInfo.signs (e : EncodingInfo) : List String :=
  [e.byteOrderMark, e.prolog, e.external].filterMap id

namespace Tree

-- The attributes that declare the encoding of their unit.
def declarations (t : Tree) : List Declaration :=
  t.directed.filter fun d => d.attr.name == "pageEncoding"

def firstOf (unit : String) (ds : List Declaration) : Option Declaration :=
  ds.find? fun d => d.attr.mark.unit == unit

-- What a unit declares first.
def declared? (t : Tree) (unit : String) : Option Attribute :=
  (firstOf unit t.declarations).map Declaration.attr

theorem firstOf_append (unit : String) (ds : List Declaration) (d : Declaration) :
    firstOf unit (ds ++ [d]) =
      (firstOf unit ds).or (if d.attr.mark.unit = unit then some d else none) := by
  rw [firstOf, firstOf, List.find?_append]
  by_cases hunit : d.attr.mark.unit = unit <;> simp [hunit]

end Tree

namespace Settings

open Checking (bind_eq_ok)
open PageCompiler.Tree (Declaration firstOf)

variable {t : Tree} {r r' : Reconciled} {id : Nat} {a : Attribute} {ds : List Declaration}

theorem forM_eq_ok {ε α : Type} {f : α → Except ε Unit} {l : List α} {u : Unit}
    (h : l.forM f = .ok u) : ∀ a ∈ l, f a = .ok () := by
  induction l with
  | nil => exact fun a ha => nomatch ha
  | cons a l ih =>
    obtain ⟨_, hfirst, hrest⟩ := bind_eq_ok.mp h
    exact List.forall_mem_cons.mpr ⟨hfirst, ih hrest⟩

theorem checkEncoding_eq_ok {signs : EncodingInfo} {u : Unit}
    (h : checkEncoding t a signs = .ok u) : ∀ s ∈ signs.signs, Encoding.same a.value s := by
  have hsign : ∀ {s : String} {detected : Option String} {sign : String}, detected = some s →
      (detected, sign) ∈ [(signs.byteOrderMark, "byte order mark"), (signs.prolog, "XML prolog"),
        (signs.external, "configured page encoding")] → Encoding.same a.value s := by
    rintro s _ sign rfl hmem
    have hchecked := forM_eq_ok h _ hmem
    by_contra hdiffers
    dsimp only at hchecked
    rw [if_neg hdiffers] at hchecked
    exact nomatch hchecked
  intro s hs
  obtain ⟨detected, hmem, hdetected⟩ := List.mem_filterMap.mp hs
  simp only [List.mem_cons, List.not_mem_nil, or_false] at hmem
  rcases hmem with rfl | rfl | rfl
  · exact hsign hdetected (.head _)
  · exact hsign hdetected (.tail _ (.head _))
  · exact hsign hdetected (.tail _ (.tail _ (.head _)))

-- The declarations taken up so far agree with the first ones of their units, and these with all
-- signs.
structure Agreed (t : Tree) (ds : List Declaration) (r : Reconciled) : Prop where
  lookup : ∀ unit, r.encodings.lookup unit =
    (firstOf unit ds).map fun d => ⟨d.attr.value, d.attr.mark⟩
  same : ∀ d ∈ ds, ∃ first, firstOf d.attr.mark.unit ds = some first ∧
    Encoding.same first.attr.value d.attr.value
  signs : ∀ unit first, firstOf unit ds = some first →
    ∀ data, t.kind (t.unitRoot first.directive) = .root data →
      ∀ s ∈ data.encoding.signs, Encoding.same first.attr.value s

theorem Agreed.nil (settings : Settings) : Agreed t [] { settings } where
  lookup _ := rfl
  same _ hd := nomatch hd
  signs _ _ h := nomatch h

-- Nothing else is kept of an attribute that declares no encoding.
theorem Agreed.of_encodings (h : Agreed t ds r) (hr : r'.encodings = r.encodings) :
    Agreed t ds r' where
  lookup := hr ▸ h.lookup
  same := h.same
  signs := h.signs

theorem Agreed.applyEncoding (h : Agreed t ds r) (happly : applyEncoding t id r a = .ok r') :
    Agreed t (ds ++ [⟨id, a⟩]) r' := by
  unfold Settings.applyEncoding at happly
  dsimp only at happly
  have hlookup := h.lookup a.mark.unit
  cases hfirst : firstOf a.mark.unit ds with
  | some first =>
    -- The unit has declared its encoding before.
    rw [hfirst] at hlookup
    rw [hlookup] at happly
    simp only [Option.map_some] at happly
    split at happly
    · rename_i hsame
      cases happly
      have hold : ∀ {unit : String} {first : Declaration}, firstOf unit ds = some first →
          firstOf unit (ds ++ [⟨id, a⟩]) = some first := fun hu => by
        rw [Tree.firstOf_append, hu, Option.some_or]
      have hkeep : ∀ unit, firstOf unit (ds ++ [⟨id, a⟩]) = firstOf unit ds := fun unit => by
        rw [Tree.firstOf_append]
        by_cases hunit : a.mark.unit = unit
        · rw [← hunit, hfirst, Option.some_or]
        · rw [if_neg hunit, Option.or_none]
      refine ⟨fun unit => by rw [hkeep]; exact h.lookup unit, fun d hd => ?_,
        fun unit first' hu => h.signs unit first' ((hkeep unit).symm.trans hu)⟩
      rcases List.mem_append.mp hd with hd | hd
      · obtain ⟨first', hfirst', hsame'⟩ := h.same d hd
        exact ⟨first', hold hfirst', hsame'⟩
      · obtain rfl := List.mem_singleton.mp hd
        exact ⟨first, hold hfirst, hsame⟩
    · cases happly
  | none =>
    -- It is the first declaration of its unit.
    rw [hfirst] at hlookup
    rw [hlookup] at happly
    have hself : firstOf a.mark.unit (ds ++ [⟨id, a⟩]) = some ⟨id, a⟩ := by
      rw [Tree.firstOf_append, hfirst, if_pos rfl, Option.none_or]
    have hother : ∀ {unit : String}, a.mark.unit ≠ unit →
        firstOf unit (ds ++ [⟨id, a⟩]) = firstOf unit ds := fun hunit => by
      rw [Tree.firstOf_append, if_neg hunit, Option.or_none]
    have hencodings : r'.encodings = r.encodings ++ [(a.mark.unit, ⟨a.value, a.mark⟩)] ∧
        ∀ data, t.kind (t.unitRoot id) = .root data →
          ∀ s ∈ data.encoding.signs, Encoding.same a.value s := by
      simp only [Option.map_none] at happly
      cases hroot : (t.kind (t.unitRoot id)).root? with
      | none =>
        rw [hroot] at happly
        cases happly
        refine ⟨rfl, fun data hdata => ?_⟩
        rw [hdata] at hroot
        cases hroot
      | some data =>
        rw [hroot] at happly
        obtain ⟨_, hcheck, happly⟩ := bind_eq_ok.mp happly
        refine ⟨?_, fun data' hdata => ?_⟩
        · split at happly <;> cases happly <;> rfl
        · rw [hdata] at hroot
          cases hroot
          exact checkEncoding_eq_ok hcheck
    refine ⟨fun unit => ?_, fun d hd => ?_, fun unit first hu => ?_⟩
    · rw [hencodings.1, List.lookup_append, h.lookup unit]
      by_cases hunit : a.mark.unit = unit
      · subst hunit
        rw [hself, hfirst]
        simp
      · rw [hother hunit]
        simp [List.lookup_cons, beq_eq_false_iff_ne.mpr (Ne.symm hunit)]
    · rcases List.mem_append.mp hd with hd | hd
      · obtain ⟨first, hfirst', hsame⟩ := h.same d hd
        exact ⟨first, by rw [Tree.firstOf_append, hfirst', Option.some_or], hsame⟩
      · obtain rfl := List.mem_singleton.mp hd
        exact ⟨_, hself, Encoding.same_refl _⟩
    · by_cases hunit : a.mark.unit = unit
      · subst hunit
        rw [hself] at hu
        cases hu
        exact hencodings.2
      · exact h.signs unit first ((hother hunit).symm.trans hu)

theorem record_encodings (h : record t r a = .ok r') : r'.encodings = r.encodings := by
  unfold record at h
  split at h
  · split at h
    · cases h
      rfl
    · cases h
  · cases h
    rfl

theorem Agreed.applyAttribute {d : Declaration} (h : Agreed t ds r)
    (happly : applyAttribute t d.directive r d.attr = .ok r') :
    Agreed t (ds ++ [d].filter fun d => d.attr.name == "pageEncoding") r' := by
  unfold Settings.applyAttribute at happly
  cases hscripting : d.attr.scripting with
  | true =>
    rw [hscripting] at happly
    obtain ⟨_, hfail, -⟩ := bind_eq_ok.mp happly
    cases hfail
  | false =>
    simp only [hscripting, Bool.false_eq_true, if_false] at happly
    split at happly
    · rename_i hname
      cases happly
      rw [List.filter_eq_nil_iff.mpr (by simp [hname]), List.append_nil]
      exact h.of_encodings rfl
    · rename_i hname
      rw [List.filter_eq_self.mpr (by simp [hname])]
      exact h.applyEncoding happly
    · rename_i hname
      obtain ⟨settings, -, happly⟩ := bind_eq_ok.mp happly
      rw [List.filter_eq_nil_iff.mpr (by simpa using hname), List.append_nil]
      exact h.of_encodings ((record_encodings happly).trans rfl)

theorem agreed_of_reconcile {o : Options} {settings : Settings}
    (h : reconcile t o = .ok settings) : ∃ r, Agreed t t.declarations r := by
  obtain ⟨r, -, hagreed⟩ := reconcile_induct
    (P := fun ds r => Agreed t (ds.filter fun d => d.attr.name == "pageEncoding") r)
    (fun d hagreed happly => by
      rw [List.filter_append]
      exact hagreed.applyAttribute happly)
    (Agreed.nil _) h
  exact ⟨r, hagreed⟩

end Settings

namespace Tree

theorem mem_declarations {t : Tree} {d : Declaration} :
    d ∈ t.declarations ↔ d.directive ∈ (t.entered fun kind => !Settings.isPageDirective kind) ∧
      t.kind d.directive = .pageDirective ∧ d.attr ∈ (t.node d.directive).attributes ∧
      d.attr.name = "pageEncoding" := by
  rw [declarations, List.mem_filter, mem_directed, beq_iff_eq, and_assoc, and_assoc]

end Tree

namespace Page

open PageCompiler.Tree (firstOf)

-- The declarations of a page that passes all checks. Every page directive either stands below
-- another one, where nothing is looked at, or agrees with the first declaration of its unit. That
-- one agrees with all signs of the unit, and so do the others unless it leaves the byte order open.
theorem encodings_checked {o : Options} {loader : Loader} {resolver resolver' : Resolver}
    {name : String} {page : Page} {checked : CheckedPage}
    (h : read o loader resolver name = (.ok page, resolver')) (hcheck : page.check o = .ok checked) :
    ∀ id ∈ page.tree.preorder, page.tree.kind id = .pageDirective →
      (∃ p ∈ page.tree.ancestors id, page.tree.kind p = .pageDirective) ∨
      ∃ root, page.tree.kind (page.tree.unitRoot id) = .root root ∧
        ∀ a ∈ (page.tree.node id).attributes, a.name = "pageEncoding" →
          ∃ first, page.tree.declared? root.unit = some first ∧
            Encoding.same first.value a.value ∧
            ∀ s ∈ root.encoding.signs, Encoding.same first.value s ∧
              (Encoding.same a.value s ∨ Encoding.canonical first.value = "UTF-16" ∧
                begins "UTF-16" (Encoding.canonical a.value) ∧
                begins "UTF-16" (Encoding.canonical s)) := by
  intro id hid hkind
  have hwf := wellFormed_read h
  have hlt := hwf.lt_size_of_mem_preorder hid
  obtain ⟨settings, hreconcile, -⟩ := Checking.bind_eq_ok.mp hcheck
  obtain ⟨r, hagreed⟩ := Settings.agreed_of_reconcile hreconcile
  rcases hwf.mem_entered_or_below (fun kind => !Settings.isPageDirective kind)
    (hwf.mem_preorder_iff.mp hid) with hentered | ⟨p, hp, hbelow⟩
  · right
    obtain ⟨root, text, hroot, hunit, hloaded⟩ := unitRoot_read h hlt
    refine ⟨root, hroot, fun a ha hname => ?_⟩
    obtain ⟨hamark, -⟩ := directed_read h id hlt hkind a ha
    obtain ⟨first, hfirst, hsame⟩ :=
      hagreed.same ⟨id, a⟩ (Tree.mem_declarations.mpr ⟨hentered, hkind, ha, hname⟩)
    have hfirstUnit : firstOf root.unit page.tree.declarations = some first := by
      rw [← hunit, Tree.mark, ← hamark]
      exact hfirst
    -- The directive that comes first in the unit may belong to another inclusion of it.
    have hsigns : ∀ s ∈ root.encoding.signs, Encoding.same first.attr.value s := by
      obtain ⟨hentered', hkind', hmem, -⟩ :=
        Tree.mem_declarations.mp (List.mem_of_find?_eq_some hfirstUnit)
      have hlt' := Tree.lt_size_of_mem_entered hwf _ hentered'
      obtain ⟨root', text', hroot', hunit', hloaded'⟩ := unitRoot_read h hlt'
      have hname' : root'.unit = root.unit := by
        have hfound := List.find?_some hfirstUnit
        rw [← hunit', Tree.mark, ← (directed_read h _ hlt' hkind' _ hmem).1]
        simpa using hfound
      obtain ⟨-, hencoding, -⟩ := hloaded.unique hloaded' hname'
      rw [← hencoding]
      exact hagreed.signs _ first hfirstUnit root' hroot'
    refine ⟨first.attr, by rw [Tree.declared?, hfirstUnit]; rfl, hsame, fun s hs => ?_⟩
    exact ⟨hsigns s hs, Encoding.same_of_same hsame (hsigns s hs)⟩
  · left
    exact ⟨p, hp, Settings.isPageDirective_iff.mp (by simpa using hbelow)⟩

-- A unit with a byte order mark that first leaves the byte order open and then names the other one.
def otherOrder : Loader :=
  .ofUnits [("/main.page", 0xFF :: 0xFE ::
    ("<%@ page pageEncoding=\"UTF-16\" %><%@ page pageEncoding=\"UTF-16BE\" %>".toList.flatMap
      fun c => [Utf8.byte c.toNat, 0]))]

-- It passes all checks, although its second declaration contradicts the mark.
theorem encodings_checked_sample :
    ∃ page resolver checked, read {} otherOrder (.ofLibraries []) "/main.page" =
        (.ok page, resolver) ∧ page.check {} = .ok checked ∧
      ∃ id ∈ page.tree.preorder, page.tree.kind id = .pageDirective ∧
        ∃ root, page.tree.kind (page.tree.unitRoot id) = .root root ∧
          ∃ a ∈ (page.tree.node id).attributes, a.name = "pageEncoding" ∧
            ∃ s ∈ root.encoding.signs, ¬Encoding.same a.value s ∧
              ∃ first, page.tree.declared? root.unit = some first ∧
                Encoding.canonical first.value = "UTF-16" := by
  have hrun : passes {} otherOrder (.ofLibraries []) "/main.page" (fun page =>
      (page.check {}).toOption.isSome && page.tree.preorder.any fun id =>
        Settings.isPageDirective (page.tree.kind id) &&
          ((page.tree.ancestors id).all fun p => !Settings.isPageDirective (page.tree.kind p)) &&
          ((page.tree.kind (page.tree.unitRoot id)).root?.any fun root =>
            root.encoding.signs == ["UTF-16LE"]) &&
          (page.tree.node id).attributes.any fun a =>
            a.name == "pageEncoding" && !Encoding.same a.value "UTF-16LE") := by decide +kernel
  obtain ⟨page, resolver, h, htest⟩ := of_passes hrun
  obtain ⟨hpassed, hfound⟩ := (Bool.and_eq_true _ _ ▸ htest)
  cases hcheck : page.check {} with
  | error d =>
    rw [hcheck] at hpassed
    cases hpassed
  | ok checked =>
    obtain ⟨id, hid, hfound⟩ := List.any_eq_true.mp hfound
    simp only [Bool.and_eq_true] at hfound
    obtain ⟨⟨⟨hpage, habove⟩, hsigns⟩, hattribute⟩ := hfound
    have hkind := Settings.isPageDirective_iff.mp hpage
    obtain ⟨a, ha, hdiffers⟩ := List.any_eq_true.mp hattribute
    simp only [Bool.and_eq_true, beq_iff_eq, Bool.not_eq_true'] at hdiffers
    rcases encodings_checked h hcheck id hid hkind with ⟨p, hp, hbelow⟩ | ⟨root, hroot, hall⟩
    · have hnot := List.all_eq_true.mp habove p hp
      rw [hbelow] at hnot
      cases hnot
    · rw [hroot] at hsigns
      have hsign : "UTF-16LE" ∈ root.encoding.signs := by
        rw [show root.encoding.signs = ["UTF-16LE"] from beq_iff_eq.mp hsigns]
        exact List.mem_singleton_self _
      obtain ⟨first, hfirst, -, hagrees⟩ := hall a ha hdiffers.1
      have hopen := (hagrees _ hsign).2.resolve_left (by rw [hdiffers.2]; decide)
      exact ⟨page, resolver, checked, h, hcheck, id, hid, hkind, root, hroot, a, ha, hdiffers.1, _,
        hsign, by rw [hdiffers.2]; decide, first, hfirst, hopen.1⟩

end Page
end PageCompiler
