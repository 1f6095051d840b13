import PageCompiler.Proofs.Checking.Encodings
import PageCompiler.Proofs.Reading.Attributes
import PageCompiler.Proofs.Source.Symbols
import Mathlib.Data.String.Basic

-- The bytes are searched for something that looks like a declaration before its text is known and
-- there are any directives; what is found is the first place that looks like one, whatever it
-- stands in. Where that is the first directive of the unit, every declaration of the unit agrees
-- with the encoding in use.
namespace PageCompiler

open Text Text.Utf8

-- An attribute up to its closing quote, with what stands between its quotes.
def Attribute.SpelledAs (a : Attribute) (raw written : List Char) : Prop :=
  ∃ gap gap' quote, written = a.name.toList ++ (gap ++ '=' :: (gap' ++ quote :: (raw ++ [quote]))) ∧
    allBlank gap ∧ allBlank gap' ∧ (quote = '"' ∨ quote = '\'')

theorem Attribute.WrittenAs.spelled {a : Attribute} {raw s : List Char} (h : a.WrittenAs raw s) :
    ∃ written behind, s = written ++ behind ∧ a.SpelledAs raw written ∧ a.ValueAs raw := by
  obtain ⟨gap, gap', rest, rfl, hgap, hgap', ⟨quote, behind, hquote, rfl⟩, hplain⟩ := h
  exact ⟨_, behind, by simp, ⟨gap, gap', quote, rfl, hgap, hgap', hquote⟩, hplain⟩

theorem Attribute.SpelledAs.ne_nil {a : Attribute} {raw written : List Char}
    (h : a.SpelledAs raw written) : written ≠ [] := by
  obtain ⟨gap, gap', quote, rfl, -⟩ := h
  simp

-- An attribute that is written as it is, and may be an encoding.
def Attribute.PlainlyAs (a : Attribute) (written : List Char) : Prop :=
  a.SpelledAs a.value.toList written ∧ a.value.toList ≠ [] ∧ IsWord a.value.toList ∧
    ∀ c ∈ written, c.toNat < 0x80

namespace Encoding

theorem symbols?_append (word : List Char) (s : Symbols) :
    symbols? word (word.map some ++ s) = some s := by
  induction word with
  | nil => cases s <;> rfl
  | cons c word ih =>
    rw [List.map_cons, List.cons_append, symbols?, if_pos rfl]
    exact ih

theorem skipBlanks_append {gap : List Char} (hgap : allBlank gap) {c : Char}
    (hc : isBlank c = false) (s : Symbols) :
    skipBlanks (gap.map some ++ some c :: s) = some c :: s := by
  induction gap with
  | nil => simp [skipBlanks, hc]
  | cons d gap ih =>
    rw [allBlank, List.all_cons, Bool.and_eq_true] at hgap
    refine Eq.trans ?_ (ih hgap.2)
    simp only [skipBlanks, List.map_cons, List.cons_append, List.dropWhile_cons, hgap.1, if_true]

theorem encodingName_append {name : List Char} (hname : ∀ c ∈ name, isEncodingChar c) {c : Char}
    (hc : isEncodingChar c = false) (s : Symbols) :
    encodingName (name.map some ++ some c :: s) = (name, some c :: s) := by
  induction name with
  | nil =>
    rw [List.map_nil, List.nil_append, encodingName, if_neg (by rw [hc]; decide)]
  | cons d name ih =>
    obtain ⟨hd, hrest⟩ := List.forall_mem_cons.mp hname
    rw [List.map_cons, List.cons_append, encodingName, if_pos hd, ih hrest]

-- A declaration with a plain name is seen where it stands.
theorem quotedEncoding?_spelled {a : Attribute} {written : List Char}
    (h : a.SpelledAs a.value.toList written) (hne : a.value.toList ≠ [])
    (hword : Attribute.IsWord a.value.toList) (s : Symbols) :
    quotedEncoding? a.name.toList (written.map some ++ s) = some a.value := by
  obtain ⟨gap, gap', quote, rfl, hgap, hgap', hquote⟩ := h
  have hblank : isBlank quote = false := by rcases hquote with rfl | rfl <;> decide
  have hchar : isEncodingChar quote = false := by rcases hquote with rfl | rfl <;> decide
  have hopen : ∀ s : Symbols, quote? (some quote :: s) = some s := fun s => by
    rcases hquote with rfl | rfl <;> rfl
  have hequals : ∀ s : Symbols, equals? (gap.map some ++ some '=' :: (gap'.map some ++
      some quote :: s)) = some (some quote :: s) := fun s => by
    rw [equals?, skipBlanks_append hgap (by decide)]
    show ((symbols? [] _).map skipBlanks) = _
    rw [symbols?, Option.map_some, skipBlanks_append hgap' hblank]
  simp only [List.map_append, List.map_cons, List.append_assoc, List.cons_append, List.map_nil,
    List.nil_append]
  rw [quotedEncoding?]
  simp only [symbols?_append, Option.bind_eq_bind, Option.bind_some, hequals, hopen,
    encodingName_append hword hchar]
  obtain ⟨c, name, hvalue⟩ := List.exists_cons_of_ne_nil hne
  rw [hvalue]
  simp only [Option.map_some, ← hvalue, String.ofList_toList]

-- The first place counts.
theorem declared?_append {front behind : Symbols} {name : String}
    (hfront : ∀ s, s ≠ [] → s <:+ front →
      quotedEncoding? "pageEncoding".toList (s ++ behind) = none)
    (hbehind : quotedEncoding? "pageEncoding".toList behind = some name) :
    declared? (front ++ behind) = some name := by
  induction front with
  | nil =>
    cases behind with
    | nil => cases hbehind
    | cons c behind => rw [List.nil_append, declared?, hbehind]
  | cons c front ih =>
    have hfirst := hfront (c :: front) (List.cons_ne_nil c front) (List.suffix_refl _)
    rw [List.cons_append] at hfirst ⊢
    rw [declared?, hfirst]
    exact ih fun s hne hs => hfront s hne (hs.trans (List.suffix_cons ..))

-- The letters of a name under which it is compared.
def letters (name : String) : List Char :=
  (upper name).toList.map fun c => if c = '_' then '-' else c

theorem toUpper_toUpper (c : Char) : c.toUpper.toUpper = c.toUpper := by
  unfold Char.toUpper
  split
  · rename_i hlower
    rw [dif_neg]
    simp only [UInt32.le_iff_toNat_le, UInt32.toNat_add] at hlower ⊢
    have hfirst : 'a'.val.toNat = 97 := rfl
    have hlast : 'z'.val.toNat = 122 := rfl
    have hshift : ('A'.val - 'a'.val).toNat = 4294967264 := rfl
    omega
  · rfl

theorem letters_ofList_letters (name : String) : letters (String.ofList (letters name)) = letters name := by
  have hone : ∀ c : Char, (fun c => if c = '_' then '-' else c)
      ((if c.toUpper = '_' then '-' else c.toUpper).toUpper) =
      if c.toUpper = '_' then '-' else c.toUpper := fun c => by
    by_cases hc : c.toUpper = '_'
    · rw [if_pos hc]
      decide
    · rw [if_neg hc, toUpper_toUpper]
      exact if_neg hc
  simp only [letters, upper, String.toList_ofList, List.map_map]
  exact List.map_congr_left fun c _ => hone c

theorem canonical_congr {a b : String} (h : letters a = letters b) : canonical a = canonical b := by
  unfold letters at h
  unfold canonical
  rw [h]

theorem canonical_eq_or (name : String) : canonical name = String.ofList (letters name) ∨
    canonical name ∈ ["UTF-8", "ISO-8859-1", "US-ASCII", "UTF-16"] := by
  unfold canonical
  split
  case h_11 => exact .inl rfl
  all_goals exact .inr (by decide)

-- A canonical name is its own canonical name.
theorem canonical_canonical (name : String) : canonical (canonical name) = canonical name := by
  rcases canonical_eq_or name with hletters | hknown
  · exact canonical_congr ((congrArg letters hletters).trans (letters_ofList_letters name))
  · simp only [List.mem_cons, List.not_mem_nil, or_false] at hknown
    rcases hknown with hname | hname | hname | hname
    all_goals
      rw [hname]
      decide

theorem same_of_canonical_eq {a a' b : String} (h : canonical a = canonical a') (hs : same a' b) :
    same a b := by
  rw [same_iff] at hs ⊢
  rw [h]
  exact hs

theorem mapError_eq_ok {ε ε' α : Type} {f : ε → ε'} {r : Except ε α} {a : α} :
    r.mapError f = .ok a ↔ r = .ok a := by
  cases r <;> simp [Except.mapError]

-- What an encoding makes of bytes does not depend on the spelling of its name.
theorem decodeAs_canonical {encoding : String} {bs : Bytes} {text : List Char}
    (h : decodeAs encoding bs = .ok text) : decodeAs (canonical encoding) bs = .ok text := by
  unfold decodeAs at h ⊢
  rw [canonical_canonical]
  split at h
  all_goals rename_i hname
  all_goals simp only [hname]
  · split at h
    · exact h
    · cases h
  · split at h
    · rename_i hascii
      rw [if_pos hascii]
      exact h
    · cases h
  · exact h
  · exact mapError_eq_ok.mpr (mapError_eq_ok.mp h)
  · exact mapError_eq_ok.mpr (mapError_eq_ok.mp h)
  · exact mapError_eq_ok.mpr (mapError_eq_ok.mp h)
  · cases h

-- A unit without any sign of its encoding is searched for a declaration.
theorem decode_of_no_signs {unit : String} {bs : Bytes} {external : Option String}
    {fallback : String} {text : List Char} {e : EncodingInfo}
    (h : decode unit bs external fallback = .ok ⟨text, e⟩) (hsigns : e.signs = []) :
    e.effective = canonical ((directive? bs).getD fallback) ∧
      decodeAs e.effective bs = .ok text := by
  unfold decode at h
  dsimp only at h
  split at h
  · cases h
  · rename_i htext
    cases h
    simp only [EncodingInfo.signs, List.filterMap_eq_nil_iff, List.mem_cons, List.not_mem_nil,
      or_false, forall_eq_or_imp, forall_eq, id, Option.map_eq_none_iff] at hsigns
    obtain ⟨hmark, hprolog, hexternal⟩ := hsigns
    rw [hmark] at hprolog
    simp only [hmark, hexternal, Option.map_none, Option.getD_none, List.drop_zero,
      Option.none_or] at htext hprolog ⊢
    rw [hprolog] at htext ⊢
    exact ⟨rfl, decodeAs_canonical htext⟩

-- Nothing that begins in front looks like a declaration.
def Foremost (front behind : Bytes) : Prop :=
  ∀ s, s ≠ [] → s <:+ symbols front →
    quotedEncoding? "pageEncoding".toList (s ++ symbols behind) = none

-- A plain declaration is found where nothing in front of it looks like one.
theorem directive?_of_foremost {encoding : String} {bs : Bytes} {a : Attribute}
    {front written behind : List Char} (hkeeps : KeepsAscii encoding)
    (hname : a.name = "pageEncoding") (hwritten : a.PlainlyAs written)
    (h : decodeAs encoding bs = .ok (front ++ (written ++ behind))) :
    ∃ bf bb, bs = bf ++ bb ∧ decodeAs encoding bf = .ok front ∧
      (Foremost bf bb → directive? bs = some a.value) := by
  obtain ⟨hspelled, hne, hword, hascii⟩ := hwritten
  obtain ⟨bf, bb, rest, rfl, hbf, hfront, hbehind⟩ :=
    symbols_of_decodeAs_append hkeeps hspelled.ne_nil hascii h
  refine ⟨bf, bb, rfl, hbf, fun hforemost => ?_⟩
  rw [directive?, hfront, declared?_append hforemost ?_, Option.some_or]
  rw [hbehind, ← hname]
  exact quotedEncoding?_spelled hspelled hne hword _

end Encoding

namespace Page

open Encoding (KeepsAscii Foremost directive? declared?)

-- How a page that passes all checks is decoded. A unit without any stronger sign has the encoding
-- named by what looks like a declaration first, wherever that stands. When nothing in front of the
-- first real declaration looks like one, all declarations of the unit agree with the encoding.
theorem declared_encoding_used {o : Options} {loader : Loader} {resolver resolver' : Resolver}
    {name : String} {page : Page} {checked : CheckedPage}
    (h : read o loader resolver name = (.ok page, resolver')) (hcheck : page.check o = .ok checked) :
    ∀ id ∈ page.tree.preorder, ∀ root, page.tree.kind id = .root root → root.encoding.signs = [] →
      ∃ bytes text, loader.load root.unit = .ok bytes ∧
        Encoding.decodeAs root.encoding.effective bytes = .ok text ∧
        root.encoding.effective =
          Encoding.canonical ((directive? bytes).getD o.defaultEncoding) ∧
        ∀ first, page.tree.declared? root.unit = some first →
          ∃ front raw written behind, text = front ++ (written ++ behind) ∧
            first.SpelledAs raw written ∧ first.ValueAs raw ∧
            (first.PlainlyAs written → KeepsAscii root.encoding.effective →
              ∃ bf bb, bytes = bf ++ bb ∧
                Encoding.decodeAs root.encoding.effective bf = .ok front ∧
                (Foremost bf bb →
                  ∀ d ∈ page.tree.preorder, page.tree.kind d = .pageDirective →
                    (page.tree.mark d).unit = root.unit →
                    (∃ p ∈ page.tree.ancestors d, page.tree.kind p = .pageDirective) ∨
                    ∀ a ∈ (page.tree.node d).attributes, a.name = "pageEncoding" →
                      Encoding.same root.encoding.effective a.value)) := by
  intro id hid root hroot hsigns
  have hwf := wellFormed_read h
  obtain ⟨settings, hreconcile, -⟩ := Checking.bind_eq_ok.mp hcheck
  obtain ⟨r, hagreed⟩ := Settings.agreed_of_reconcile hreconcile
  obtain ⟨text, hloaded⟩ := rootLoaded_read h (hwf.lt_size_of_mem_preorder hid) hroot
  obtain ⟨bytes, hload, hdecode⟩ := hloaded.load
  obtain ⟨heffective, htext⟩ := Encoding.decode_of_no_signs hdecode hsigns
  refine ⟨bytes, text, hload, htext, heffective, fun first hfirst => ?_⟩
  obtain ⟨d, hd, rfl⟩ := Option.map_eq_some_iff.mp hfirst
  have hunit : d.attr.mark.unit = root.unit := by simpa using List.find?_some hd
  -- The declaration is written in the text of the unit.
  obtain ⟨hentered, hkind, hmem, hname⟩ := Tree.mem_declarations.mp (List.mem_of_find?_eq_some hd)
  obtain ⟨hmark, root', text', raw, t, hloaded', hunit', ⟨front, rfl⟩, hwritten⟩ :=
    directed_read h _ (Tree.lt_size_of_mem_entered hwf _ hentered) hkind _ hmem
  obtain ⟨rfl, -⟩ := hloaded.unique hloaded' (hunit'.trans (hmark.symm.trans hunit))
  obtain ⟨written, behind, rfl, hspelled, hvalue⟩ := hwritten.spelled
  refine ⟨front, raw, written, behind, rfl, hspelled, hvalue, fun hplain hkeeps => ?_⟩
  obtain ⟨bf, bb, hbytes, hbf, hfound⟩ := Encoding.directive?_of_foremost hkeeps hname hplain htext
  refine ⟨bf, bb, hbytes, hbf, fun hforemost d' hd' hkind' hunit' => ?_⟩
  -- Every other declaration agrees with the first one.
  rcases hwf.mem_entered_or_below (fun kind => !Settings.isPageDirective kind)
    (hwf.mem_preorder_iff.mp hd') with hentered' | ⟨p, hp, hbelow⟩
  · refine .inr fun a ha haname => ?_
    obtain ⟨hamark, -⟩ := directed_read h d' (hwf.lt_size_of_mem_preorder hd') hkind' a ha
    obtain ⟨first, hfirst', hsame⟩ :=
      hagreed.same ⟨d', a⟩ (Tree.mem_declarations.mpr ⟨hentered', hkind', ha, haname⟩)
    obtain rfl : first = d := by
      have hsameUnit : a.mark.unit = root.unit := hamark.trans hunit'
      rw [hsameUnit, hd] at hfirst'
      exact (Option.some.inj hfirst').symm
    refine Encoding.same_of_canonical_eq ?_ hsame
    rw [heffective, Encoding.canonical_canonical, hfound hforemost, Option.getD_some]
  · exact .inl ⟨p, hp, Settings.isPageDirective_iff.mp (by simpa using hbelow)⟩

-- A comment in front of the directive that tells the encoding.
def commentedEncoding : Loader :=
  .ofUnits [("/main.page", Utf8.ofString
    "<%-- pageEncoding=\"ISO-8859-1\" --%><%@ page pageEncoding=\"UTF-8\" %>")]

-- The unit is decoded as the comment says, and passes all checks.
theorem declared_encoding_used_sample :
    ∃ page resolver checked, read {} commentedEncoding (.ofLibraries []) "/main.page" =
        (.ok page, resolver) ∧ page.check {} = .ok checked ∧
      ∃ id ∈ page.tree.preorder, ∃ root, page.tree.kind id = .root root ∧
        root.encoding.signs = [] ∧ root.encoding.effective = "ISO-8859-1" ∧
        (∃ d ∈ page.tree.preorder, page.tree.kind d = .pageDirective ∧
          ∃ a ∈ (page.tree.node d).attributes, a.name = "pageEncoding" ∧
            ¬Encoding.same root.encoding.effective a.value) := by
  have hrun : passes {} commentedEncoding (.ofLibraries []) "/main.page" (fun page =>
      (page.check {}).toOption.isSome &&
        ((page.tree.kind 0).root?.any fun root =>
          root.encoding.signs == [] && root.unit == "/main.page") &&
        page.tree.preorder.contains 0 && page.tree.preorder.any fun d =>
          Settings.isPageDirective (page.tree.kind d) &&
            (page.tree.node d).attributes.any fun a =>
              a.name == "pageEncoding" && a.value == "UTF-8") := by
    rw [commentedEncoding, Utf8.ofString_ofList]
    decide +kernel
  have hfound : (commentedEncoding.load "/main.page").toOption.bind directive? =
      some "ISO-8859-1" := by
    rw [commentedEncoding, Utf8.ofString_ofList]
    decide +kernel
  obtain ⟨page, resolver, h, htest⟩ := of_passes hrun
  simp only [Bool.and_eq_true] at htest
  obtain ⟨⟨⟨hpassed, hroot⟩, hreached⟩, hdirective⟩ := htest
  cases hcheck : page.check {} with
  | error d =>
    rw [hcheck] at hpassed
    cases hpassed
  | ok checked =>
    obtain ⟨root, hkind, hroot⟩ := (Option.any_eq_true _ _).mp hroot
    rw [NodeKind.root?_eq_some] at hkind
    obtain ⟨hsigns, hunit⟩ := Bool.and_eq_true _ _ ▸ hroot
    have hid : 0 ∈ page.tree.preorder := by simpa using hreached
    obtain ⟨bytes, text, hload, -, heffective, -⟩ :=
      declared_encoding_used h hcheck 0 hid root hkind (beq_iff_eq.mp hsigns)
    rw [beq_iff_eq.mp hunit] at hload
    rw [hload] at hfound
    rw [show directive? bytes = some "ISO-8859-1" from hfound] at heffective
    have hlatin : root.encoding.effective = "ISO-8859-1" := heffective.trans (by decide)
    obtain ⟨d, hd, hfound⟩ := List.any_eq_true.mp hdirective
    obtain ⟨hpage, hattribute⟩ := Bool.and_eq_true _ _ ▸ hfound
    obtain ⟨a, ha, hvalue⟩ := List.any_eq_true.mp hattribute
    simp only [Bool.and_eq_true, beq_iff_eq] at hvalue
    refine ⟨page, resolver, checked, h, hcheck, 0, hid, root, hkind, beq_iff_eq.mp hsigns, hlatin,
      d, hd, Settings.isPageDirective_iff.mp hpage, a, ha, hvalue.1, ?_⟩
    rw [hlatin, hvalue.2]
    decide

end Page
end PageCompiler
