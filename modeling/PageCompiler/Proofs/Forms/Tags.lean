import PageCompiler.Proofs.Expression.Tokens
import PageCompiler.Proofs.Forms.Template
import PageCompiler.Proofs.Reading.Attributes
import PageCompiler.Proofs.Reading.Progress

namespace PageCompiler

open Text Template
open Expression (stripStart?_head_ne)

namespace Cursor

def blanks : List Nat :=
  [0x09, 0x0A, 0x0B, 0x0C, 0x0D, 0x20, 0x85, 0xA0, 0x1680, 0x2000, 0x2001, 0x2002, 0x2003, 0x2004,
    0x2005, 0x2006, 0x2007, 0x2008, 0x2009, 0x200A, 0x2028, 0x2029, 0x202F, 0x205F, 0x3000]

theorem toNat_mem_blanks {c : Char} (h : isBlank c) : c.toNat ∈ blanks := by
  simp only [isBlank, Bool.or_eq_true, Bool.and_eq_true, decide_eq_true_eq, beq_iff_eq] at h
  simp only [blanks, List.mem_cons, List.not_mem_nil, or_false]
  omega

theorem isBlank_of_isTagNameChar {c : Char} (h : isTagNameChar c) : isBlank c = false := by
  have hnone : ∀ n ∈ blanks, isTagNameChar (Char.ofNat n) = false := by decide +kernel
  by_contra hb
  have hc := hnone c.toNat (toNat_mem_blanks (by simpa using hb))
  rw [Char.ofNat_toNat, h] at hc
  cases hc

-- What follows a name does not lengthen it.
def Stops (s : List Char) : Prop := ∀ c, s.head? = some c → isTagNameChar c = false

theorem takeWhile_name {name rest : List Char} (hn : name.all isTagNameChar) (hr : Stops rest) :
    (name ++ rest).takeWhile isTagNameChar = name ∧
      (name ++ rest).dropWhile isTagNameChar = rest := by
  have hall : ∀ c ∈ name, isTagNameChar c := List.all_eq_true.mp hn
  have hstop : rest.takeWhile isTagNameChar = [] ∧ rest.dropWhile isTagNameChar = rest := by
    cases rest with
    | nil => exact ⟨rfl, rfl⟩
    | cons c rest =>
      have hc := Bool.eq_false_iff.mp (hr c rfl)
      exact ⟨List.takeWhile_cons_of_neg hc, List.dropWhile_cons_of_neg hc⟩
  rw [List.takeWhile_append_of_pos hall, List.dropWhile_append_of_pos hall, hstop.1, hstop.2,
    List.append_nil]
  exact ⟨rfl, rfl⟩

theorem exists_cons_of_isName {name : List Char} (h : isName name) :
    ∃ c cs, name = c :: cs ∧ isTagNameChar c ∧ cs.all isTagNameChar := by
  cases name with
  | nil => cases h
  | cons c cs =>
    simp only [isName, List.isEmpty_cons, Bool.not_false, Bool.true_and, List.all_cons,
      Bool.and_eq_true] at h
    exact ⟨c, cs, rfl, h.1, h.2⟩

theorem exists_concat_of_isName {name : List Char} (h : isName name) :
    ∃ w c, name = w ++ [c] ∧ isTagNameChar c := by
  rcases List.eq_nil_or_concat name with rfl | ⟨w, c, rfl⟩
  · cases h
  · refine ⟨w, c, List.concat_eq_append, ?_⟩
    simp only [isName, Bool.and_eq_true] at h
    exact List.all_eq_true.mp h.2 c (by simp)

theorem all_of_isName {name : List Char} (h : isName name) : name.all isTagNameChar := by
  simp only [isName, Bool.and_eq_true] at h
  exact h.2

theorem rest_skipBlanks_of_cons {c : Cursor} {x : Char} {xs : List Char} (h : c.rest = x :: xs)
    (hx : isBlank x = false) : c.skipBlanks.rest = x :: xs := by
  rw [skipBlanks, h, List.dropWhile_cons_of_neg (by simp [hx])]

theorem readName?_name {c : Cursor} {name tail : List Char} (h : c.rest = name ++ tail)
    (hn : isName name) (ht : Stops tail) :
    ∃ behind, c.readName? = some (name, behind) ∧ behind.rest = tail := by
  obtain ⟨htake, hdrop⟩ := takeWhile_name (all_of_isName hn) ht
  obtain ⟨x, xs, rfl, -, -⟩ := exists_cons_of_isName hn
  unfold readName?
  rw [h, htake]
  exact ⟨_, rfl, hdrop⟩

theorem accept?_append {c : Cursor} (piece : String) {tail : List Char}
    (h : c.rest = piece.toList ++ tail) :
    ∃ behind, c.accept? piece = some behind ∧ behind.rest = tail := by
  rw [accept?, h, stripStart?_append]
  exact ⟨_, rfl, rfl⟩

theorem accept?_eq_none {c : Cursor} {x y : Char} {xs ys : List Char} {piece : String}
    (h : c.rest = x :: xs) (hp : piece.toList = y :: ys) (hne : y ≠ x) :
    c.accept? piece = none := by
  rw [accept?, h, hp, stripStart?_head_ne hne]
  rfl

-- An end tag is passed over, whatever stands behind it.
theorem endTag?_endTagText {c : Cursor} {name : String} {tail : List Char}
    (h : c.rest = endTagText name.toList ++ tail) :
    ∃ behind, c.endTag? name = some behind ∧ behind.rest = tail := by
  have hbehind : behindEndTag? name.toList (endTagText name.toList ++ tail) = some tail := by
    have hopen : endTagText name.toList ++ tail = "</".toList ++ (name.toList ++ '>' :: tail) := by
      simp [endTagText]
    have hclose : ('>' :: tail).dropWhile isBlank = '>' :: tail :=
      List.dropWhile_cons_of_neg (by decide)
    rw [hopen, behindEndTag?, stripStart?_append]
    simp only [Option.bind_eq_bind, Option.bind_some]
    rw [stripStart?_append]
    simp only [Option.bind_some]
    rw [hclose]
    rfl
  rw [endTag?, h, hbehind]
  exact ⟨_, rfl, rest_moveTo h⟩

-- There is none where the text does not start with one.
theorem endTag?_eq_none {c : Cursor} (name : String)
    (h : ∀ tail, c.rest ≠ '<' :: '/' :: tail) : c.endTag? name = none := by
  have hbehind : behindEndTag? name.toList c.rest = none := by
    have hopen : stripStart? "</".toList c.rest = none := by
      by_contra hs
      obtain ⟨tail, ht⟩ := Option.ne_none_iff_exists'.mp hs
      exact h tail (eq_of_stripStart? ht)
    rw [behindEndTag?, hopen]
    rfl
  rw [endTag?, hbehind]
  rfl

end Cursor

namespace Template

open Cursor

theorem splitOnce?_qualified {space : List Char} (hc : ':' ∉ space) (name : List Char) :
    splitOnce? ':' (qualified space name) = some (space, name) := by
  induction space with
  | nil => rfl
  | cons c space ih =>
    have hne : c ≠ ':' := by
      rintro rfl
      exact hc (List.mem_cons_self ..)
    have hrest := ih fun hm => hc (List.mem_cons_of_mem _ hm)
    rw [qualified] at hrest
    simp [qualified, splitOnce?, hne, hrest]

theorem isPortableSpace_iff {space : List Char} :
    isPortableSpace space ↔ isName space ∧ ':' ∉ space := by
  simp [isPortableSpace]

theorem isName_append {v w : List Char} (hv : v.all isTagNameChar) (hw : isName w) :
    isName (v ++ w) := by
  obtain ⟨c, cs, rfl, hc, hcs⟩ := exists_cons_of_isName hw
  simp [isName, List.all_append, hv, hc, hcs]

theorem isName_qualified {space name : List Char} (hs : isPortableSpace space)
    (hn : isName name) : isName (qualified space name) := by
  have hspace := all_of_isName (isPortableSpace_iff.mp hs).1
  exact isName_append hspace (isName_append (v := [':']) (by decide) hn)

theorem cutString?_qualified {space : List Char} (hs : isPortableSpace space) (name : List Char) :
    cutString? ':' (String.ofList (qualified space name)) =
      some (String.ofList space, String.ofList name) := by
  rw [cutString?, String.toList_ofList, splitOnce?_qualified (isPortableSpace_iff.mp hs).2]
  rfl

theorem ofList_qualified_ne (space name : List Char) :
    String.ofList (qualified space name) ≠ "" := by
  simp [qualified]

theorem ofList_ne_empty {space : List Char} (hs : isPortableSpace space) :
    String.ofList space ≠ "" := by
  obtain ⟨c, cs, rfl, -, -⟩ := exists_cons_of_isName (isPortableSpace_iff.mp hs).1
  simp

-- Characters of names are none of those that mean something in a tag.
theorem lacks_of_isTagNameChar {others w : List Char} (ho : others.all fun c => !isTagNameChar c)
    (hw : w.all isTagNameChar) : lacks others w := by
  refine List.all_eq_true.mpr fun c hc => ?_
  have hchar := List.all_eq_true.mp hw c hc
  simp only [Bool.not_eq_true', List.contains_eq_mem, decide_eq_false_iff_not]
  intro hm
  have hno := List.all_eq_true.mp ho c hm
  simp [hchar] at hno

theorem isValue_of_isName {name : List Char} (h : isName name) : isValue name :=
  lacks_of_isTagNameChar (by decide) (all_of_isName h)

theorem parts_of_isAttribute {attrs : List (List Char × List Char)} (h : attrs.all isAttribute) :
    ∀ a ∈ attrs, isName a.1 ∧ isValue a.2 := by
  intro a ha
  have hattr := List.all_eq_true.mp h a ha
  simp only [isAttribute, Bool.and_eq_true] at hattr
  exact ⟨hattr.1.1.1, hattr.2⟩

end Template

namespace Relaxed

open Cursor

-- A value without special characters is written as it is.
theorem escapeValue_of_isValue {value : List Char} (h : isValue value) :
    escapeValue '"' value = value := by
  fun_induction escapeValue '"' value with
  | case1 => rfl
  | case2 cs => exact absurd rfl (ne_of_lacks h (List.mem_cons_self ..) (by decide))
  | case3 c cs _ hc =>
    have hne := fun {d : Char} => ne_of_lacks (d := d) h (List.mem_cons_self ..)
    simp [hne (d := '\\') (by decide), hne (d := '"') (by decide)] at hc
  | case4 c cs _ hc ih => rw [ih (lacks_cons h)]

theorem readQuoted_value {c : Cursor} (name : List Char) {value tail : List Char} (mark : Mark)
    (b : Builder) (hv : isValue value) (h : c.rest = '"' :: (value ++ '"' :: tail)) :
    ∃ behind, readQuoted name mark c b =
      .ok ({ name := String.ofList name, value := String.ofList value, mark }, behind) b ∧
      behind.rest = tail := by
  have hmove : c.rest = ('"' :: (value ++ ['"'])) ++ tail := by simp [h]
  have hquote : '"' = '"' ∨ '"' = '\'' := .inl rfl
  have hcode := readCode_escapeValue hquote value tail
  have hvalue := readValue_escapeValue hquote value tail
  rw [escapeValue_of_isValue hv] at hcode hvalue
  refine ⟨c.moveTo tail, ?_, rest_moveTo hmove⟩
  unfold readQuoted
  rw [h]
  simp only [decide_true, Bool.true_or, if_true, hcode, hvalue]
  rfl

theorem stops_cons {c : Char} (h : isTagNameChar c = false) (s : List Char) : Stops (c :: s) := by
  rintro d ⟨⟩
  exact h

theorem readAttribute_written {c : Cursor} {name value tail : List Char} (b : Builder)
    (hn : isName name) (hv : isValue value)
    (h : c.rest = name ++ '=' :: '"' :: (value ++ '"' :: tail)) :
    ∃ behind, readAttribute c b =
      .ok ({ name := String.ofList name, value := String.ofList value, mark := c.mark }, behind) b ∧
      behind.rest = tail := by
  obtain ⟨equals, hname, hequals⟩ := readName?_name h hn (stops_cons (by decide) _)
  have hskip := rest_skipBlanks_of_cons hequals (by decide)
  obtain ⟨quote, haccept, hquote⟩ := accept?_append "=" hskip
  have hskip' := rest_skipBlanks_of_cons hquote (by decide)
  obtain ⟨behind, hread, hbehind⟩ :=
    readQuoted_value name c.mark b hv hskip'
  refine ⟨behind, ?_, hbehind⟩
  unfold readAttribute
  rw [hname]
  simp only [haccept]
  exact hread

-- The cursor stands in front of one of the ends, blanks aside; `tail` is what follows the end.
def MeetsEnd (ends : List String) (close : List Char) (e : String) (tail : List Char) : Prop :=
  ∀ c : Cursor, c.rest = close → ∃ behind,
    (ends.findSome? fun e => (c.skipBlanks.accept? e).map fun behind => (e, behind)) =
      some (e, behind) ∧ behind.rest = tail

-- By induction on the attributes. No end starts with a character of a name, so that each of them is
-- passed over in front of an attribute.
theorem readAttributesFrom_written {ends : List String} {start : Mark} {e : String}
    {close tail : List Char}
    (hends : ∀ x ∈ ends, ∃ y ys, x.toList = y :: ys ∧ isTagNameChar y = false)
    (hclose : MeetsEnd ends close e tail) {attrs : List (List Char × List Char)}
    (ha : ∀ a ∈ attrs, isName a.1 ∧ isValue a.2) {fuel : Nat} (hf : attrs.length < fuel)
    {c : Cursor} (h : c.rest = attributesText attrs ++ close) (b : Builder) :
    ∃ read behind, readAttributesFrom ends start fuel c b = .ok (read, e, behind) b ∧
      behind.rest = tail ∧ Given attrs read := by
  induction attrs generalizing fuel c with
  | nil =>
    obtain ⟨n, rfl⟩ : ∃ n, fuel = n + 1 := ⟨fuel - 1, by simp at hf; omega⟩
    obtain ⟨behind, hfind, hbehind⟩ := hclose c h
    refine ⟨[], behind, ?_, hbehind, rfl, by simp⟩
    unfold readAttributesFrom
    dsimp only
    rw [hfind]
    rfl
  | cons a attrs ih =>
    obtain ⟨n, rfl⟩ : ∃ n, fuel = n + 1 := ⟨fuel - 1, by simp at hf; omega⟩
    obtain ⟨hname, hvalue⟩ := ha a (List.mem_cons_self ..)
    obtain ⟨x, xs, hx, hchar, -⟩ := exists_cons_of_isName hname
    obtain ⟨rest, hrest⟩ : ∃ rest, rest = attributesText attrs ++ close := ⟨_, rfl⟩
    have hskip : c.skipBlanks.rest = a.1 ++ '=' :: '"' :: (a.2 ++ '"' :: rest) := by
      rw [Cursor.skipBlanks, h, hrest]
      simp [attributesText, attributeText, hx, show isBlank ' ' = true by decide,
        isBlank_of_isTagNameChar hchar]
    have hfind : (ends.findSome? fun e =>
        (c.skipBlanks.accept? e).map fun behind => (e, behind)) = none := by
      rw [List.findSome?_eq_none_iff]
      intro e he
      obtain ⟨y, ys, hy, hstop⟩ := hends e he
      have hne : y ≠ x := by
        rintro rfl
        rw [hchar] at hstop
        cases hstop
      rw [hx] at hskip
      rw [accept?_eq_none hskip hy hne]
      rfl
    have hmore : c.skipBlanks.atEnd = false := by
      rw [Cursor.atEnd, hskip, hx]
      rfl
    obtain ⟨behind, hread, hbehind⟩ := readAttribute_written b hname hvalue hskip
    obtain ⟨read, last, hall, hlast, hgiven, hcode⟩ :=
      ih (fun a hm => ha a (List.mem_cons_of_mem _ hm)) (Nat.lt_of_succ_lt_succ hf)
        (hbehind.trans hrest)
    refine ⟨⟨String.ofList a.1, String.ofList a.2, false, c.skipBlanks.mark⟩ :: read, last, ?_,
      hlast, ?_, ?_⟩
    · unfold readAttributesFrom
      dsimp only
      rw [hfind, hmore]
      simp only [Bool.false_eq_true, if_false]
      refine BuildM.bind_eq_ok.mpr ⟨_, _, hread, ?_⟩
      exact BuildM.bind_eq_ok.mpr ⟨_, _, hall, rfl⟩
    · rw [List.map_cons, hgiven]
      rfl
    · intro r hr
      rcases List.mem_cons.mp hr with rfl | hr
      · rfl
      · exact hcode r hr

theorem length_le_attributesText (attrs : List (List Char × List Char)) :
    attrs.length ≤ (attributesText attrs).length := by
  induction attrs with
  | nil => exact Nat.le_refl _
  | cons a attrs ih =>
    simp only [attributesText, List.flatMap_cons, attributeText, List.length_cons,
      List.length_append] at ih ⊢
    omega

theorem readAttributes_written {ends : List String} (start : Mark) {e : String}
    {close tail : List Char}
    (hends : ∀ x ∈ ends, ∃ y ys, x.toList = y :: ys ∧ isTagNameChar y = false)
    (hclose : MeetsEnd ends close e tail) {attrs : List (List Char × List Char)}
    (ha : ∀ a ∈ attrs, isName a.1 ∧ isValue a.2)
    {c : Cursor} (h : c.rest = attributesText attrs ++ close) (b : Builder) :
    ∃ read behind, readAttributes ends start c b = .ok (read, e, behind) b ∧
      behind.rest = tail ∧ Given attrs read := by
  refine readAttributesFrom_written hends hclose ha ?_ h b
  have hlength := length_le_attributesText attrs
  rw [h, List.length_append]
  omega

theorem meetsEnd_slash (tail : List Char) : MeetsEnd tagEnds ('/' :: '>' :: tail) "/>" tail := by
  intro c h
  have hskip := rest_skipBlanks_of_cons h (by decide)
  obtain ⟨behind, haccept, hbehind⟩ := accept?_append "/>" hskip
  exact ⟨behind, by simp [tagEnds, haccept], hbehind⟩

theorem meetsEnd_bracket (tail : List Char) : MeetsEnd tagEnds ('>' :: tail) ">" tail := by
  intro c h
  have hskip := rest_skipBlanks_of_cons h (by decide)
  have hslash : c.skipBlanks.accept? "/>" = none :=
    accept?_eq_none hskip (show "/>".toList = ['/', '>'] from rfl) (by decide)
  obtain ⟨behind, haccept, hbehind⟩ := accept?_append ">" hskip
  exact ⟨behind, by simp [tagEnds, hslash, haccept], hbehind⟩

theorem meetsEnd_percent (tail : List Char) :
    MeetsEnd ["%>"] (' ' :: '%' :: '>' :: tail) "%>" tail := by
  intro c h
  have hskip : c.skipBlanks.rest = '%' :: '>' :: tail := by
    rw [Cursor.skipBlanks, h]
    simp [show isBlank ' ' = true by decide, show isBlank '%' = false by decide]
  obtain ⟨behind, haccept, hbehind⟩ := accept?_append "%>" hskip
  exact ⟨behind, by simp [haccept], hbehind⟩

theorem tagEnds_stop : ∀ x ∈ tagEnds, ∃ y ys, x.toList = y :: ys ∧ isTagNameChar y = false := by
  intro x hx
  simp only [tagEnds, List.mem_cons, List.not_mem_nil, or_false] at hx
  rcases hx with rfl | rfl
  · exact ⟨'/', ['>'], rfl, by decide⟩
  · exact ⟨'>', [], rfl, by decide⟩

-- Statements are taken for no other construct.
theorem construct?_statements {x : List Char} (bindings : Bindings)
    (hdash : stripStart? ['-', '-'] x = none)
    (hsign : ∀ c, x.head? = some c → c ≠ '@' ∧ c ≠ '!' ∧ c ≠ '=') :
    construct? bindings ('<' :: '%' :: x) = some (.script .scriptlet, x) := by
  have hne : ∀ c, ('@' = c ∨ '!' = c ∨ '=' = c) → stripStart? [c] x = none := by
    intro c hc
    cases x with
    | nil => rfl
    | cons d x =>
      refine stripStart?_head_ne ?_ _ _
      rintro rfl
      have := hsign c rfl
      rcases hc with rfl | rfl | rfl <;> simp at this
  simp [construct?, openings, stripStart?, hdash, hne]

theorem construct?_scriptCode (bindings : Bindings) (kind : ScriptKind) (code tail : List Char) :
    construct? bindings (scriptCode kind code ++ tail) =
      some (.script kind, gap kind code ++ (code ++ '%' :: '>' :: tail)) := by
  cases kind with
  | declaration => simp [scriptCode, sign, construct?, openings, stripStart?]
  | expression => simp [scriptCode, sign, construct?, openings, stripStart?]
  | scriptlet =>
    obtain ⟨x, hx⟩ : ∃ x, x = gap .scriptlet code ++ (code ++ '%' :: '>' :: tail) := ⟨_, rfl⟩
    have htext : scriptCode .scriptlet code ++ tail = '<' :: '%' :: x := by
      simp [scriptCode, sign, hx]
    rw [htext, ← hx]
    rw [gap] at hx
    split at hx
    · subst hx
      exact construct?_statements bindings (stripStart?_head_ne (by decide) _ _) (by simp)
    · rename_i hgap
      simp only [decide_true, Bool.true_and, List.any_eq_true, not_exists, not_and] at hgap
      have hno : ∀ s ∈ ["!", "=", "@", "--"], stripStart? s.toList code = none := by
        intro s hs
        simpa [Text.startsWith] using hgap s hs
      subst hx
      refine construct?_statements bindings ?_ ?_
      · -- A single dash is followed by the end of the code.
        have hdash := hno "--" (by simp)
        rcases code with _ | ⟨c, _ | ⟨d, code⟩⟩
        · exact stripStart?_head_ne (by decide) _ _
        · simp [stripStart?]
        · simpa [stripStart?] using hdash
      · intro c hc
        cases code with
        | nil =>
          obtain rfl : '%' = c := by simpa using hc
          decide
        | cons d code =>
          obtain rfl : d = c := by simpa using hc
          have h1 := hno "@" (by simp)
          have h2 := hno "!" (by simp)
          have h3 := hno "=" (by simp)
          simp only [String.reduceToList] at h1 h2 h3
          refine ⟨?_, ?_, ?_⟩ <;> rintro rfl <;> simp_all [stripStart?]

theorem construct?_directive (bindings : Bindings) (x : List Char) :
    construct? bindings ('<' :: '%' :: '@' :: x) = some (.directive, x) := by
  simp [construct?, openings, stripStart?]

-- There is no colon in front of the first one.
theorem stripStart?_jsp {space : List Char} (hc : ':' ∉ space) (hne : space ≠ "jsp".toList)
    (w y : List Char) :
    stripStart? ('j' :: 's' :: 'p' :: ':' :: w) (space ++ ':' :: y) = none := by
  by_contra h
  obtain ⟨r, hr⟩ := Option.ne_none_iff_exists'.mp h
  have heq := congrArg (List.takeWhile (· != ':')) (eq_of_stripStart? hr)
  have hall : ∀ c ∈ space, (c != ':') = true := by
    intro c hm
    rw [bne_iff_ne]
    rintro rfl
    exact hc hm
  rw [List.takeWhile_append_of_pos hall] at heq
  exact hne (by simpa using heq)

theorem construct?_action {bindings : Bindings} {space name tail : List Char}
    (hs : isPortableSpace space) (hne : space ≠ "jsp".toList) (hn : isName name)
    (hb : bindings.isBound (String.ofList space)) (ht : Stops tail) :
    construct? bindings ('<' :: (qualified space name ++ tail)) =
      some (.action (String.ofList (qualified space name)), tail) := by
  have hcolon := (isPortableSpace_iff.mp hs).2
  have hq := isName_qualified hs hn
  obtain ⟨htake, hdrop⟩ := takeWhile_name (all_of_isName hq) ht
  have hjsp : ∀ w, stripStart? ('j' :: 's' :: 'p' :: ':' :: w) (qualified space name ++ tail) =
      none := by
    intro w
    have htext : qualified space name ++ tail = space ++ ':' :: (name ++ tail) := by
      simp [qualified]
    rw [htext]
    exact stripStart?_jsp hcolon hne _ _
  have haction : action? bindings (qualified space name ++ tail) =
      some (.action (String.ofList (qualified space name))) := by
    obtain ⟨c, cs, rfl, -, -⟩ := exists_cons_of_isName hn
    simp [action?, tagName, htake, splitOnce?_qualified hcolon, isActionSpace, hb]
  obtain ⟨x, xs, hx, hchar, -⟩ := exists_cons_of_isName hq
  have hx1 : '%' ≠ x := by
    rintro rfl
    exact absurd hchar (by decide)
  have hx2 : x ≠ '/' := by
    rintro rfl
    exact absurd hchar (by decide)
  have hopenings : (openings.findSome? fun o =>
      (stripStart? o.1.toList ('<' :: (qualified space name ++ tail))).map fun behind =>
        (o.2, behind)) = none := by
    have hpercent : ∀ w, stripStart? ('%' :: w) (qualified space name ++ tail) = none := by
      intro w
      rw [hx]
      exact stripStart?_head_ne hx1 _ _
    have hfirst : ∀ w, stripStart? ('<' :: w) ('<' :: (qualified space name ++ tail)) =
        stripStart? w (qualified space name ++ tail) := fun w => by simp [stripStart?]
    simp [openings, hfirst, hpercent, hjsp]
  unfold construct?
  rw [hopenings]
  split
  · rename_i rest hrest
    obtain rfl : qualified space name ++ tail = rest := (List.cons.inj hrest).2
    dsimp only
    split
    · rename_i heq
      rw [hx] at heq
      exact absurd (List.cons.inj heq).1 hx2
    · rw [haction, hdrop]
      rfl
  · rename_i hno
    exact absurd rfl (hno _)

end Relaxed
end PageCompiler
