import PageCompiler.Markup.Event
import PageCompiler.Proofs.Reading.Letters

-- An entity takes more space than the character it stands for; the delimiters of sections, and
-- instructions and declarations, stand for nothing.
namespace PageCompiler.Markup

open Text

theorem size_numbered {n : Nat} {c : Char} (h : numbered? n = some c) (hn : n < 128) :
    c.utf8Size = 1 := by
  by_cases hvalid : n.isValidChar
  · rw [numbered?, dif_pos hvalid] at h
    by_cases hzero : n = 0
    · rw [if_pos hzero] at h
      cases h
    · rw [if_neg hzero] at h
      cases h
      rw [Char.utf8Size_eq_one_iff, UInt32.le_iff_toNat_le]
      show n ≤ 127
      omega
  · rw [numbered?, dif_neg hvalid] at h
    cases h

-- A number has digits, and one digit is less than the radix.
theorem number?_eq_some {radix n : Nat} {s : List Char} (h : number? radix s = some n) :
    ∃ c cs, s = c :: cs ∧ (cs = [] → n < radix) := by
  unfold number? at h
  split at h
  · cases h
  · rename_i hempty
    obtain ⟨c, cs, rfl⟩ := List.exists_cons_of_ne_nil fun hnil => hempty (List.isEmpty_iff.mpr hnil)
    refine ⟨c, cs, rfl, ?_⟩
    rintro rfl
    have hdigit := (Option.filter_eq_some_iff.mp h).1
    rw [List.foldlM_cons, Option.bind_eq_bind, Option.bind_eq_some_iff] at hdigit
    obtain ⟨m, hm, hlast⟩ := hdigit
    obtain ⟨d, hd, rfl⟩ := Option.map_eq_some_iff.mp hm
    cases hlast
    have hlt := (Option.filter_eq_some_iff.mp hd).2
    simpa using hlt

theorem length_le_byteSize (s : List Char) : s.length ≤ byteSize s := by
  induction s with
  | nil => exact Nat.le_refl _
  | cons c s ih =>
    have hpos := c.utf8Size_pos
    rw [List.length_cons, byteSize_cons]
    omega

-- Between the ampersand and the semicolon stands more than the character takes.
theorem size_entity {name : List Char} {c : Char} (h : entity? name = some c) :
    c.utf8Size < byteSize name + 2 := by
  have hfour := c.utf8Size_le_four
  unfold entity? at h
  split at h
  · rename_i digits
    obtain ⟨n, hn, -⟩ := Option.bind_eq_some_iff.mp h
    obtain ⟨d, ds, rfl, -⟩ := number?_eq_some hn
    have hlength := length_le_byteSize ('#' :: 'x' :: d :: ds)
    simp only [List.length_cons] at hlength
    omega
  · rename_i digits _
    obtain ⟨n, hn, hc⟩ := Option.bind_eq_some_iff.mp h
    obtain ⟨d, ds, rfl, hone⟩ := number?_eq_some hn
    have hlength := length_le_byteSize ('#' :: d :: ds)
    simp only [List.length_cons] at hlength
    cases ds with
    | nil =>
      have hsize := size_numbered hc (by have := hone rfl; omega)
      omega
    | cons e es =>
      simp only [List.length_cons] at hlength
      omega
  · split at h <;> cases h
    all_goals
      rw [Char.utf8Size_eq_one_iff.mpr (by decide)]
      omega

-- Letters of character data, and what has been passed over behind the last one.
structure CharData where
  letters : Letters := []
  gap : List Char := []

namespace CharData

variable {d d' : CharData} {opening piece text : List Char}

def source (d : CharData) : List Char := d.letters.source ++ d.gap

def put (d : CharData) (written : List Char) (value : Char) : CharData :=
  { letters := d.letters ++ [⟨d.gap, written, value⟩] }

def pass (d : CharData) (s : List Char) : CharData := { d with gap := d.gap ++ s }

@[simp] theorem source_put (d : CharData) (written : List Char) (value : Char) :
    (d.put written value).source = d.source ++ written := by
  simp [source, put, Letters.source, Letter.source]

@[simp] theorem source_pass (d : CharData) (s : List Char) : (d.pass s).source = d.source ++ s :=
  (List.append_assoc ..).symm

@[simp] theorem values_put (d : CharData) (written : List Char) (value : Char) :
    (d.put written value).letters.values = d.letters.values ++ [value] :=
  Letters.values_append ..

theorem put_ne_nil (d : CharData) (written : List Char) (value : Char) :
    (d.put written value).letters ≠ [] := by
  simp [put]

-- What has been written and read further. The first letter stands behind the opening.
structure Grows (d d' : CharData) (opening piece text : List Char) : Prop where
  source_eq : d'.source = d.source ++ piece
  values_eq : d'.letters.values = d.letters.values ++ text
  kept : d.letters ≠ [] → d'.letters.gap = d.letters.gap
  first : d.letters = [] → text ≠ [] → d'.letters.gap = d.gap ++ opening

namespace Grows

theorem refl (d : CharData) : d.Grows d [] [] [] where
  source_eq := (List.append_nil _).symm
  values_eq := (List.append_nil _).symm
  kept _ := rfl
  first _ hne := absurd rfl hne

theorem pass (d : CharData) (s : List Char) : d.Grows (d.pass s) [] s [] where
  source_eq := d.source_pass s
  values_eq := (List.append_nil _).symm
  kept _ := rfl
  first _ hne := absurd rfl hne

theorem put {written : List Char} {value : Char}
    (h : (d.put written value).Grows d' opening piece text) :
    d.Grows d' [] (written ++ piece) (value :: text) where
  source_eq := by rw [h.source_eq, source_put, List.append_assoc]
  values_eq := by
    rw [h.values_eq, values_put, List.append_assoc]
    rfl
  kept hne := by
    obtain ⟨l, ls, hletters⟩ := List.exists_cons_of_ne_nil hne
    rw [h.kept (d.put_ne_nil _ _), CharData.put, hletters]
    rfl
  first hnil _ := by
    rw [h.kept (d.put_ne_nil _ _), CharData.put, hnil, List.append_nil]
    rfl

-- Between delimiters, which are passed over.
theorem enclose (h : (d.pass opening).Grows d' [] piece text) (closing : List Char) :
    d.Grows (d'.pass closing) opening (opening ++ piece ++ closing) text where
  source_eq := by rw [source_pass, h.source_eq, source_pass, List.append_assoc, List.append_assoc,
    List.append_assoc]
  values_eq := h.values_eq
  kept := h.kept
  first hnil hne := (h.first hnil hne).trans (List.append_nil _)

end Grows

end CharData

-- How character data is written: as it is, as entities and in sections. Instructions and
-- declarations may stand in between. In a section that is open, `inside` is what stands in it so
-- far.
inductive Spelled : Option (List Char) → CharData → Prop
  | nil : Spelled none {}
  | char {d : CharData} {c : Char} (h : Spelled none d) (hopen : c ≠ '<') (hentity : c ≠ '&') :
      Spelled none (d.put [c] c)
  | entity {d : CharData} {name : List Char} {value : Char} (h : Spelled none d)
      (hvalue : entity? name = some value) : Spelled none (d.put ('&' :: (name ++ [';'])) value)
  | opened {d : CharData} (h : Spelled none d) : Spelled (some []) (d.pass "<![CDATA[".toList)
  | inner {d : CharData} {inside : List Char} (c : Char) (h : Spelled (some inside) d) :
      Spelled (some (inside ++ [c])) (d.put [c] c)
  | closed {d : CharData} {inside : List Char} (h : Spelled (some inside) d)
      (hend : ¬ "]]>".toList <:+: inside ++ "]]".toList) : Spelled none (d.pass "]]>".toList)
  | other {d : CharData} {inside rest : List Char} (h : Spelled none d)
      (hother : piece? (inside ++ rest) = .ok ⟨.other, rest⟩) : Spelled none (d.pass ('<' :: inside))

namespace Spelled

variable {d : CharData}

theorem roomy {inside : Option (List Char)} (h : Spelled inside d) :
    ∀ l ∈ d.letters, l.Roomy := by
  have hput : ∀ {d : CharData} {written : List Char} {value : Char}, (∀ l ∈ d.letters, l.Roomy) →
      Letter.Roomy ⟨d.gap, written, value⟩ → ∀ l ∈ (d.put written value).letters, l.Roomy :=
    fun hd hl => List.forall_mem_append.mpr ⟨hd, List.forall_mem_singleton.mpr hl⟩
  induction h with
  | nil => exact fun _ hl => nomatch hl
  | char _ _ _ ih => exact hput ih (.inl rfl)
  | entity _ hvalue ih =>
    refine hput ih (.inr ?_)
    have hsize := size_entity hvalue
    have hamp : '&'.utf8Size = 1 := rfl
    have hsemicolon : ';'.utf8Size = 1 := rfl
    simp only [byteSize_cons, byteSize_append, byteSize_nil]
    omega
  | inner _ _ ih => exact hput ih (.inl rfl)
  | opened _ ih | closed _ _ ih | other _ _ ih => exact ih

-- Text with entities. The name of one may have been begun.
theorem unescapeFrom (h : Spelled none d) {name : Option (List Char)} {s text : List Char}
    (htext : Markup.unescapeFrom name s = some text) (hopen : '<' ∉ s) :
    ∃ d', Spelled none d' ∧
      d.Grows d' [] ((name.map fun read => '&' :: read.reverse).getD [] ++ s) text := by
  fun_induction Markup.unescapeFrom name s generalizing d text with
  | case1 => cases htext
  | case2 name hname =>
    cases htext
    obtain rfl : name = none := by simpa using hname
    exact ⟨d, h, .refl d⟩
  | case3 cs ih => exact ih h htext (List.not_mem_of_not_mem_cons hopen)
  | case4 c cs hc ih =>
    obtain ⟨t, ht, rfl⟩ := Option.map_eq_some_iff.mp htext
    have hne : c ≠ '<' := (List.ne_of_not_mem_cons hopen).symm
    obtain ⟨d', hd', hgrows⟩ := ih (h.char hne hc) ht (List.not_mem_of_not_mem_cons hopen)
    exact ⟨d', hd', hgrows.put⟩
  | case5 cs read ih =>
    obtain ⟨value, hvalue, htext⟩ := Option.bind_eq_some_iff.mp htext
    obtain ⟨t, ht, rfl⟩ := Option.map_eq_some_iff.mp htext
    obtain ⟨d', hd', hgrows⟩ := ih (h.entity hvalue) ht (List.not_mem_of_not_mem_cons hopen)
    refine ⟨d', hd', ?_⟩
    have hput := hgrows.put
    simpa using hput
  | case6 cs read => cases htext
  | case7 c cs read _ _ ih =>
    obtain ⟨d', hd', hgrows⟩ := ih h htext (List.not_mem_of_not_mem_cons hopen)
    exact ⟨d', hd', by simpa using hgrows⟩

theorem unescape (h : Spelled none d) {raw text : List Char} (htext : unescape? raw = some text)
    (hopen : '<' ∉ raw) : ∃ d', Spelled none d' ∧ d.Grows d' [] raw text :=
  h.unescapeFrom htext hopen

-- What stands in a section is written as it is.
theorem inners {inside : List Char} (h : Spelled (some inside) d) (data : List Char) :
    ∃ d', Spelled (some (inside ++ data)) d' ∧ d.Grows d' [] data data := by
  induction data generalizing d inside with
  | nil => exact ⟨d, by simpa using h, .refl d⟩
  | cons c data ih =>
    obtain ⟨d', hd', hgrows⟩ := ih (h.inner c)
    exact ⟨d', by simpa using hd', hgrows.put⟩

theorem cdata (h : Spelled none d) {data : List Char}
    (hend : ¬ "]]>".toList <:+: data ++ "]]".toList) :
    ∃ d', Spelled none d' ∧ d.Grows d' "<![CDATA[".toList
      ("<![CDATA[".toList ++ data ++ "]]>".toList) data := by
  obtain ⟨d', hd', hgrows⟩ := h.opened.inners data
  exact ⟨_, hd'.closed hend, hgrows.enclose _⟩

end Spelled

-- Tags and comments end a run of character data.
def Event.Ends : Event → Prop
  | opening _ | empty _ | closing _ | comment _ => True
  | text _ | cdata _ | other => False

-- A run starts where the document does, or behind a tag or a comment.
def Begins (document : List Char) (place : Nat) : Prop :=
  place = 0 ∨ ∃ e ∈ (read document).events, e.event.Ends ∧ e.stop = place

-- A run of character data of a document, from its first letter on. What stands in front of this
-- letter and behind the tag or comment in front of the run is counted as well.
def Gathered (document front : List Char) (ls : Letters) (rest : List Char) : Prop :=
  ∃ (lead behind : List Char) (d : CharData), Spelled none d ∧ Begins document (byteSize lead) ∧
    front = lead ++ d.letters.gap ∧ ls = d.letters.tidy ∧ rest = d.gap ++ behind

theorem unescape?_eq {s : List Char} (h : '&' ∉ s) : unescape? s = some s := by
  rw [unescape?]
  induction s with
  | nil => rfl
  | cons c s ih =>
    have hne : c ≠ '&' := by
      rintro rfl
      exact h (List.mem_cons_self ..)
    have hrest := ih fun hm => h (List.mem_cons_of_mem _ hm)
    simp [unescapeFrom, hne, hrest]

end PageCompiler.Markup
