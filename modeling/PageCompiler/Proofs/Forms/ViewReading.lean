import PageCompiler.Proofs.Checking.ScannedRuns
import PageCompiler.Proofs.Forms.StrictReading
import PageCompiler.Proofs.Forms.View
import PageCompiler.Proofs.Reading.Pages

-- The sections are put together again, and what is read is what scanning makes of the text: the
-- text itself, unless there is a delimiter in it. A text that holds one, since it was escaped in
-- the page or since no expressions were read there, is shown with nothing in front of it.
namespace PageCompiler

open Text

namespace Composite

-- The delimiter of an expression stands in the text.
def HasDelimiter (text : List Char) : Prop := ∃ d : Dialect, [d.sign, '{'] <:+: text

theorem hasDelimiter_cons {c : Char} {text : List Char} (h : HasDelimiter text) :
    HasDelimiter (c :: text) :=
  h.imp fun _ hd => hd.trans (List.infix_cons List.infix_rfl)

theorem delimiter?_eq_none {text : List Char} (h : ¬ HasDelimiter text) : delimiter? text = none := by
  cases hd : delimiter? text with
  | none => rfl
  | some found =>
    obtain ⟨d, rest⟩ := found
    rw [delimiter?_eq_some.mp hd] at h
    exact absurd ⟨d, [], rest, rfl⟩ h

-- Nothing in such a text is more than a character.
theorem scan_plainText {text behind : List Char} (h : ¬ HasDelimiter text) (offset : Nat) :
    scan {} offset behind text = .ok (textPart (text.reverse ++ behind)) := by
  induction text generalizing offset behind with
  | nil => exact scan_nil
  | cons c text ih =>
    have hrest : ¬ HasDelimiter text := fun hd => h (hasDelimiter_cons hd)
    have he : escaped? (c :: text) = none :=
      escaped?_of_delimiter? fun _ => delimiter?_eq_none hrest
    rw [scan_plain he (delimiter?_eq_none h), ih hrest]
    simp

-- The delimiter stands in front or in what follows.
theorem hasDelimiter_of_cons {c : Char} {text : List Char} (h : HasDelimiter (c :: text)) :
    (∃ found, delimiter? (c :: text) = some found) ∨ HasDelimiter text := by
  obtain ⟨d, hd⟩ := h
  rcases List.infix_cons_iff.mp hd with ⟨rest, hrest⟩ | hd
  · exact .inl ⟨(d, rest), delimiter?_eq_some.mpr hrest.symm⟩
  · exact .inr ⟨d, hd⟩

theorem recognises_default (d : Dialect) : ScanOptions.recognises {} d := by cases d <;> rfl

-- A delimiter either starts an expression or has a backslash in front, which is lost.
theorem length_of_scan {offset : Nat} {behind text : List Char} {value : String}
    (h : scan {} offset behind text = .ok [.text value]) :
    value.length ≤ behind.length + text.length ∧
      (HasDelimiter text → value.length < behind.length + text.length) := by
  fun_induction scan {} offset behind text with
  | case1 offset behind =>
    cases behind with
    | nil => cases h
    | cons c behind =>
      cases h
      refine ⟨by simp, ?_⟩
      rintro ⟨d, hd⟩
      exact absurd (List.infix_nil.mp hd) (by simp)
  | case2 offset behind c cs d rest he _ ih =>
    have hle := (ih (by simpa using h)).1
    rw [escaped?_eq_some.mp he]
    rw [dif_pos (recognises_default d)] at hle
    simp only [List.length_cons] at hle ⊢
    omega
  | case3 offset behind c cs he hd ih =>
    obtain ⟨hle, hlt⟩ := ih h
    simp only [List.length_cons] at hle hlt ⊢
    refine ⟨by omega, fun hcs => ?_⟩
    rcases hasDelimiter_of_cons hcs with ⟨found, hfound⟩ | hcs
    · rw [hd] at hfound
      cases hfound
    · have := hlt hcs
      omega
  | case4 => cases h
  | case5 => cases h
  | case6 => cases h
  | case7 offset behind c cs he d rest hd hrec body after hb _ tree hp parts hscan ih =>
    cases behind <;> cases h
  | case8 offset behind c cs he d rest hd hrec ih => exact absurd (recognises_default d) hrec

theorem parse_eq_text_iff {text : List Char} :
    parse {} text = .ok ⟨[.text (String.ofList text)]⟩ ↔ text ≠ [] ∧ ¬ HasDelimiter text := by
  have hparse : ∀ parts, parse {} text = .ok ⟨parts⟩ ↔ scan {} 0 [] text = .ok parts := by
    intro parts
    rw [parse]
    cases scan {} 0 [] text with
    | error e => simp [Except.map]
    | ok found => simp [Except.map]
  rw [hparse]
  constructor
  · intro h
    refine ⟨?_, fun hd => ?_⟩
    · rintro rfl
      rw [scan_nil] at h
      cases h
    · have hlt := (length_of_scan h).2 hd
      simp at hlt
  · rintro ⟨hne, hd⟩
    rw [scan_plainText hd, List.append_nil]
    obtain ⟨c, rest, hrev⟩ : ∃ c rest, text.reverse = c :: rest :=
      List.exists_cons_of_ne_nil (by simpa using hne)
    rw [hrev, textPart, ← hrev, List.reverse_reverse]
    simp

end Composite

namespace Page

theorem piece?_section {part : List Char} (h : ¬ sectionEnd <:+: part) (rest : List Char) :
    Markup.piece? ("![CDATA[".toList ++ part ++ sectionEnd ++ rest) =
      .ok ⟨.cdata part, rest⟩ := by
  have htext : "![CDATA[".toList ++ part ++ sectionEnd ++ rest =
      '!' :: '[' :: ("CDATA[".toList ++ (part ++ sectionEnd ++ rest)) := by simp
  have hcut : (stripStart? "[CDATA[".toList
      ('[' :: ("CDATA[".toList ++ (part ++ sectionEnd ++ rest)))).bind (cutAt? sectionEnd) =
        some (part, rest) := by
    have hstart : stripStart? "[CDATA[".toList
        ("[CDATA[".toList ++ (part ++ sectionEnd ++ rest)) = some (part ++ sectionEnd ++ rest) :=
      stripStart?_append ..
    rw [show '[' :: ("CDATA[".toList ++ (part ++ sectionEnd ++ rest)) =
      "[CDATA[".toList ++ (part ++ sectionEnd ++ rest) from rfl, hstart]
    exact cutAt?_section h rest
  rw [htext]
  rw [sectionEnd] at hcut ⊢
  simp only [Markup.piece?, hcut]

end Page

namespace Strict

open Builder Page Template PageCompiler.Tree
open Markup (readFrom Located)

variable {x : Context} {s : State} {b b' : Builder}

theorem readOn_cons_iff {d : Markup.Document} {e : Located} :
    readOn x s (d.cons e) b = .ok () b' ↔
      ∃ s₁ b₁, readEvent x s e b = .ok s₁ b₁ ∧ readOn x s₁ d b₁ = .ok () b' := by
  rw [readOn, Markup.Document.cons, List.foldlM_cons, bind_assoc, BuildM.bind_eq_ok]
  rfl

-- The sections are gathered as the text they make up.
theorem readOn_sections {parts : List (List Char)} (hparts : ∀ part ∈ parts, ¬ sectionEnd <:+: part)
    (hc : s.content = .text) (depth offset : Nat) (tail : List Char) (b : Builder) :
    ∃ s₁ offset', s₁.frames = s.frames ∧ s₁.pending = parts.flatten.reverse ++ s.pending ∧
      ∀ b', readOn x s (readFrom depth offset (parts.flatMap sectionText ++ tail)) b = .ok () b' ↔
        readOn x s₁ (readFrom depth offset' tail) b = .ok () b' := by
  induction parts generalizing s offset with
  | nil => exact ⟨s, offset, rfl, by simp, fun _ => .rfl⟩
  | cons part parts ih =>
    obtain ⟨hpart, hparts⟩ := List.forall_mem_cons.mp hparts
    have hpiece := piece?_section hpart (parts.flatMap sectionText ++ tail)
    have hdepth : (Markup.Event.cdata part).depth? depth = some depth := rfl
    obtain ⟨stop, hevents⟩ := Markup.readFrom_piece hpiece hdepth offset
    obtain ⟨s₁, offset', hframes, hpending, hread⟩ :=
      ih hparts (s := s.push part (offset + "<![CDATA[".length)) hc stop
    refine ⟨s₁, offset', hframes, ?_, fun b' => ?_⟩
    · rw [hpending, State.push]
      simp
    · have htext : (part :: parts).flatMap sectionText ++ tail =
          '<' :: ("![CDATA[".toList ++ part ++ sectionEnd ++
            (parts.flatMap sectionText ++ tail)) := by
        simp [sectionText]
      rw [htext, hevents, readOn_cons_iff, ← hread]
      have hevent : readEvent x s ⟨.cdata part, offset, stop⟩ b =
          .ok (s.push part (offset + "<![CDATA[".length)) b := by
        rw [readEvent_eq (by simp [hc])]
        rfl
      rw [hevent]
      constructor
      · rintro ⟨_, _, ⟨⟩, h⟩
        exact h
      · exact fun h => ⟨_, _, rfl, h⟩

-- A text element has been opened under a node.
def withTextElement (b : Builder) (parent : NodeId) (mark : Mark) : Builder :=
  { b with
    tree := (b.tree.append parent
      { kind := .jspText, mark, name := "jsp:text" }).2.openBody b.tree.size }

theorem finishElement_text {id : NodeId} (hk : b.tree.kind id = .jspText)
    (hc : ∀ c ∈ b.tree.children id, (b.tree.kind c).isNamed = false) :
    finishElement id b = .ok () b := by
  have hnone : ((b.tree.children id).any fun c => (b.tree.kind c).isNamed) = false :=
    List.any_eq_false.mpr fun c hm => by simp [hc c hm]
  have hcontent : bodyContent? b.tree id ≠ some .empty := by simp [bodyContent?, hk, NodeKind.custom?]
  rw [finishElement]
  refine BuildM.bind_eq_ok.mpr ⟨b, b, rfl, ?_⟩
  rw [hnone, if_neg Bool.false_ne_true]
  refine BuildM.bind_eq_ok.mpr ⟨b, b, rfl, ?_⟩
  rw [hk, if_neg hcontent]
  rfl

-- The parts of a text have been put into an element.
def withParts (b : Builder) (id : NodeId) (mark : Mark) (text : List Char) (parts : List Part) :
    Builder :=
  { b with tree := appendAll b.tree id (partNodes mark text 0 parts) }

theorem addText_eq_ok_iff {parent : NodeId} {text : List Char} {mark : Mark} :
    addText parent text mark b = .ok () b' ↔
      ∃ c, Composite.parse b.scan text = .ok c ∧ b' = withParts b parent mark text c.parts := by
  rw [addText_eq]
  cases Composite.parse b.scan text with
  | error e => simp [fail_ne_ok]
  | ok c => simp [withParts, eq_comm]

-- The text is put into its element when the element is closed.
theorem flush_text_iff {s' : State} (hs : s.pending ≠ []) (hc : s.content = .text) :
    flush x s b = .ok s' b' ↔
      ∃ c, Composite.parse b.scan s.pending.reverse = .ok c ∧ s' = { s with pending := [] } ∧
        b' = withParts b (s.parent x) (x.markAt s.pendingStart) s.pending.reverse c.parts := by
  have hflush : flush x s b =
      (addText (s.parent x) s.pending.reverse (x.markAt s.pendingStart) >>= fun _ =>
        pure { s with pending := [] } : BuildM State) b := by
    rw [flush, if_neg (by simpa using hs)]
    simp only [hc]
  rw [hflush, BuildM.bind_eq_ok]
  constructor
  · rintro ⟨_, b₁, hadd, ⟨⟩⟩
    obtain ⟨c, hparse, rfl⟩ := addText_eq_ok_iff.mp hadd
    exact ⟨c, hparse, rfl, rfl⟩
  · rintro ⟨c, hparse, rfl, rfl⟩
    exact ⟨(), _, addText_eq_ok_iff.mpr ⟨c, hparse, rfl⟩, rfl⟩

theorem readOn_end (hf : s.frames = []) (hs : s.pending = []) (stop : Nat) :
    readOn x s ⟨[], none, stop⟩ b = .ok () b := by
  have hflush : flush x s b = .ok s b := by
    rw [flush, hs]
    rfl
  have hend : readEnd x s stop b = .ok () b := by
    rw [readEnd, State.content, hf]
    rfl
  rw [readOn]
  refine BuildM.bind_eq_ok.mpr ⟨s, b, rfl, BuildM.bind_eq_ok.mpr ⟨(), b, hend, ?_⟩⟩
  refine BuildM.bind_eq_ok.mpr ⟨s, b, hflush, ?_⟩
  rw [hf]
  rfl

theorem close_textElement {id : NodeId} (hid : id < b.tree.size) (hk : b.tree.kind id = .jspText)
    (hc : b.tree.children id = []) (mark : Mark) (text : List Char) (parts : List Part) :
    close id .text (withParts b id mark text parts) = .ok () (withParts b id mark text parts) := by
  have hadds := adds_partNodes hid mark text 0 parts
  obtain ⟨body, hbody⟩ := hadds.parent_eq
  obtain ⟨ids, hids, hshown⟩ := hadds.shown
  rw [hc, List.nil_append] at hids
  have hkind : (withParts b id mark text parts).tree.kind id = .jspText := by
    rw [withParts, Tree.kind, hbody]
    exact hk
  rw [close]
  refine BuildM.bind_eq_ok.mpr ⟨_, _, rfl, ?_⟩
  rw [hkind]
  exact finishElement_text hkind fun c hm => hshown.isNamed_eq_false (hids ▸ hm)

theorem readOn_closing {id : NodeId} {mark : Mark} {text : List Char} (hne : text ≠ [])
    (hid : id < b.tree.size) (hk : b.tree.kind id = .jspText) (hc : b.tree.children id = [])
    (hf : s.frames = [⟨id, "jsp:text", .text, mark⟩]) (hs : s.pending = text.reverse)
    (offset : Nat) :
    readOn x s (readFrom 1 offset ('<' :: '/' :: ("jsp:text".toList ++ '>' :: []))) b = .ok () b' ↔
      ∃ c, Composite.parse b.scan text = .ok c ∧
        b' = withParts b id (x.markAt s.pendingStart) text c.parts := by
  have hcontent : s.content = .text := by rw [State.content, hf]; rfl
  have hparent : s.parent x = id := by rw [State.parent, hf]; rfl
  have hname : isName "jsp:text".toList := by decide
  have hpiece := Markup.piece?_closing hname []
  have hdepth : (Markup.Event.closing "jsp:text".toList).depth? 1 = some 0 := rfl
  obtain ⟨stop, hevents⟩ := Markup.readFrom_piece hpiece hdepth offset
  have hstop : readFrom 0 stop [] = ⟨[], none, stop⟩ := by rw [readFrom]
  rw [hevents, readOn_cons_iff, readEvent_eq (by simp [hcontent]), hstop]
  have hevent : ∀ s₁ b₁, readMarkup x s ⟨.closing "jsp:text".toList, offset, stop⟩ b = .ok s₁ b₁ ↔
      ∃ c, Composite.parse b.scan text = .ok c ∧ s₁ = { s with pending := [], frames := [] } ∧
        b₁ = withParts b id (x.markAt s.pendingStart) text c.parts := by
    intro s₁ b₁
    have hend : ∀ parts, endElement x { s with pending := [] } "jsp:text" offset
        (withParts b id (x.markAt s.pendingStart) text parts) =
          .ok { s with pending := [], frames := [] }
            (withParts b id (x.markAt s.pendingStart) text parts) := by
      intro parts
      rw [endElement]
      simp only [hf, if_true]
      exact BuildM.bind_eq_ok.mpr ⟨_, _, close_textElement hid hk hc _ text parts, rfl⟩
    rw [readMarkup, BuildM.bind_eq_ok]
    simp only [flush_text_iff (by simpa [hs] using hne) hcontent, hparent, hs, List.reverse_reverse]
    constructor
    · rintro ⟨_, _, ⟨c, hparse, rfl, rfl⟩, h⟩
      rw [String.ofList_toList, hend] at h
      cases h
      exact ⟨c, hparse, rfl, rfl⟩
    · rintro ⟨c, hparse, rfl, rfl⟩
      exact ⟨_, _, ⟨c, hparse, rfl, rfl⟩, hend _⟩
  constructor
  · rintro ⟨s₁, b₁, hread, h⟩
    obtain ⟨c, hparse, rfl, rfl⟩ := (hevent s₁ b₁).mp hread
    rw [readOn_end rfl rfl] at h
    cases h
    exact ⟨c, hparse, rfl⟩
  · rintro ⟨c, hparse, rfl⟩
    exact ⟨_, _, (hevent _ _).mpr ⟨c, hparse, rfl, rfl⟩, readOn_end rfl rfl stop⟩

theorem toList_wrapped (text : String) :
    (wrapped "text" text).toList =
      '<' :: ("jsp:text".toList ++ '>' :: ((cdataParts text.length text.toList).flatMap sectionText ++
        '<' :: '/' :: ("jsp:text".toList ++ '>' :: []))) := by
  simp only [wrapped, String.toList_append, toList_cdata]
  simp

theorem opened_withTextElement {parent : NodeId} (hp : parent < b.tree.size) (mark : Mark) :
    Opened b.tree parent { kind := .jspText, mark, name := "jsp:text" }
      (withTextElement b parent mark).tree :=
  (opened_append hp rfl).openBody hp

-- Reading the element of a text does nothing but scan the text.
theorem read_wrapped_iff {text : String} (hne : text ≠ "") {root : NodeId}
    (hroot : root < b.tree.size) (includeUnit : Includer) (keepBlanks : Bool) (unit : String) :
    ∃ mark mark', ∀ b', read includeUnit keepBlanks root unit (wrapped "text" text).toList b =
        .ok () b' ↔
      ∃ c, Composite.parse b.scan text.toList = .ok c ∧
        b' = withParts (withTextElement b root mark) b.tree.size mark' text.toList c.parts := by
  obtain ⟨x, hx⟩ : ∃ x : Context, x =
      { root, unit, text := (wrapped "text" text).toList, keepBlanks, includeUnit } := ⟨_, rfl⟩
  obtain ⟨parts, hparts⟩ : ∃ parts, parts = cdataParts text.length text.toList := ⟨_, rfl⟩
  have hsections : ∀ part ∈ parts, ¬ sectionEnd <:+: part := by
    intro part hm
    rw [hparts] at hm
    exact section_of_mem_cdataParts (Nat.le_of_eq String.length_toList) hm
  have hflatten : parts.flatten = text.toList := by rw [hparts, flatten_cdataParts]
  obtain ⟨tail, htail⟩ : ∃ tail, tail = '<' :: '/' :: ("jsp:text".toList ++ '>' :: []) := ⟨_, rfl⟩
  have hname : isName "jsp:text".toList := by decide
  have hnone : ∀ a ∈ ([] : List (List Char × List Char)), isName a.1 ∧ isValue a.2 := by simp
  -- The start tag opens the element, the sections are gathered, the end tag puts them into it.
  have hpiece : Markup.piece? ("jsp:text".toList ++ '>' :: (parts.flatMap sectionText ++ tail)) =
      .ok ⟨.opening "jsp:text".toList, parts.flatMap sectionText ++ tail⟩ :=
    Markup.piece?_opening hname hnone _
  have hdepth : (Markup.Event.opening "jsp:text".toList).depth? 0 = some 1 := rfl
  obtain ⟨stop, hevents⟩ := Markup.readFrom_piece hpiece hdepth 0
  obtain ⟨s, offset, hframes, hpending, hread⟩ := readOn_sections (x := x) hsections
    (s := { frames := [⟨b.tree.size, "jsp:text", .text, x.markAt 0⟩] }) rfl 1 stop tail
    (withTextElement b root (x.markAt 0))
  rw [hflatten, List.append_nil] at hpending
  have hopen := opened_withTextElement hroot (x.markAt 0)
  obtain ⟨body, hnode⟩ := hopen.new_eq
  have hid : b.tree.size < (withTextElement b root (x.markAt 0)).tree.size := by
    rw [hopen.size_eq]
    omega
  have hkind : (withTextElement b root (x.markAt 0)).tree.kind b.tree.size = .jspText := by
    rw [Tree.kind, hnode]
  refine ⟨x.markAt 0, x.markAt s.pendingStart, fun b' => ?_⟩
  have hstart : read includeUnit keepBlanks root unit (wrapped "text" text).toList b = .ok () b' ↔
      readOn x {} (readFrom 0 0
        ('<' :: ("jsp:text".toList ++ '>' :: (parts.flatMap sectionText ++ tail)))) b =
          .ok () b' := by
    rw [read, ← hx, readDocument_eq, toList_wrapped, ← hparts, ← htail]
    rfl
  have hevent : readEvent x {} ⟨.opening "jsp:text".toList, 0, stop⟩ b =
      .ok { frames := [⟨b.tree.size, "jsp:text", .text, x.markAt 0⟩] }
        (withTextElement b root (x.markAt 0)) := by
    rw [hx]
    rfl
  have htext : text.toList ≠ [] := by simpa using hne
  have hclosing : readOn x s (readFrom 1 offset tail) (withTextElement b root (x.markAt 0)) =
      .ok () b' ↔ ∃ c, Composite.parse b.scan text.toList = .ok c ∧
        b' = withParts (withTextElement b root (x.markAt 0)) b.tree.size (x.markAt s.pendingStart)
          text.toList c.parts := by
    rw [htail]
    exact readOn_closing htext hid hkind hopen.new_children hframes hpending offset
  rw [hstart, hevents, readOn_cons_iff, hevent]
  constructor
  · rintro ⟨_, _, ⟨⟩, h⟩
    exact hclosing.mp ((hread b').mp h)
  · intro h
    exact ⟨_, _, rfl, (hread b').mpr (hclosing.mpr h)⟩

-- Nothing but a text element with this text in it has come under a node.
structure GainsText (t : Tree) (parent : NodeId) (text : String) (u : Tree) : Prop where
  size_eq : u.size = t.size + 2
  node_eq : ∀ i < t.size, i ≠ parent → u.node i = t.node i
  element_eq : u.kind t.size = .jspText
  parent_eq : u.parent t.size = some parent
  children_eq : u.children t.size = [t.size + 1]
  text_eq : u.kind (t.size + 1) = .text (.ofText text)

-- A single part stands in the element as its node.
theorem withParts_single {id : NodeId} (mark : Mark) (text : List Char) (part : Part) (n : Node)
    (hn : partNodes mark text 0 [part] = [n]) :
    (withParts b id mark text [part]).tree = (b.tree.append id n).2 := by
  rw [withParts, hn]
  rfl

theorem gainsText_withParts {root : NodeId} (hroot : root < b.tree.size) (mark mark' : Mark)
    {text : String} {parts : List Part} :
    GainsText b.tree root text
        (withParts (withTextElement b root mark) b.tree.size mark' text.toList parts).tree ↔
      parts = [.text text] := by
  have hopen := opened_withTextElement hroot mark
  obtain ⟨body, hnode⟩ := hopen.new_eq
  constructor
  · intro h
    have hsize := h.size_eq
    rw [withParts, size_appendAll, hopen.size_eq, length_partNodes] at hsize
    obtain ⟨part, rfl⟩ := List.length_eq_one_iff.mp (show parts.length = 1 by omega)
    have htext := h.text_eq
    rw [← hopen.size_eq] at htext
    cases part with
    | text value =>
      rw [withParts_single mark' text.toList (.text value) _ rfl, kind_append] at htext
      cases htext
      rfl
    | expr d source tree offset =>
      rw [withParts_single mark' text.toList (.expr d source tree offset) _ rfl, kind_append]
        at htext
      cases htext
  · rintro rfl
    have hid : b.tree.size < (withTextElement b root mark).tree.size := by
      rw [hopen.size_eq]
      omega
    have hinner := opened_append hid
      (n := { kind := .text (.ofText text), mark := mark'.advance (takeBytes 0 text.toList) }) rfl
    rw [← withParts_single mark' text.toList (.text text) _ rfl] at hinner
    obtain ⟨body', hnew⟩ := hinner.new_eq
    rw [hopen.size_eq] at hnew
    have hnode' := hinner.parent_eq
    rw [hnode, hopen.new_children, hopen.size_eq, List.nil_append] at hnode'
    constructor
    · rw [hinner.size_eq, hopen.size_eq]
    · intro i hi hne
      rw [hinner.node_eq i (by omega) (by omega), hopen.node_eq i hi hne]
    · rw [Tree.kind, hnode']
    · rw [Tree.parent, hnode']
    · rw [Tree.children, hnode']
      rfl
    · rw [Tree.kind, hnew]

-- What is read is the text alone exactly when there is no delimiter in it.
theorem exists_read_wrapped_iff {text : String} (hne : text ≠ "") {root : NodeId}
    (hroot : root < b.tree.size) (hscan : b.scan = {}) (includeUnit : Includer) (keepBlanks : Bool)
    (unit : String) :
    (∃ b', read includeUnit keepBlanks root unit (wrapped "text" text).toList b = .ok () b' ∧
        GainsText b.tree root text b'.tree) ↔ ¬ Composite.HasDelimiter text.toList := by
  obtain ⟨mark, mark', hread⟩ := read_wrapped_iff hne hroot includeUnit keepBlanks unit
  have htext : ¬ Composite.HasDelimiter text.toList ↔
      Composite.parse {} text.toList = .ok ⟨[.text text]⟩ := by
    have hparse := @Composite.parse_eq_text_iff text.toList
    rw [String.ofList_toList] at hparse
    rw [hparse]
    simp [hne]
  rw [htext]
  constructor
  · rintro ⟨b', h, hgains⟩
    obtain ⟨c, hc, rfl⟩ := (hread b').mp h
    rw [hscan] at hc
    rw [hc, ← (gainsText_withParts hroot mark mark').mp hgains]
  · intro h
    rw [← hscan] at h
    exact ⟨_, (hread _).mpr ⟨_, h, rfl⟩, (gainsText_withParts hroot mark mark').mpr rfl⟩

end Strict

-- The document of a page has an element for each text that stands below nothing but nodes that
-- show their bodies. Read as a document, with expressions in it, the element gives the text back
-- as one text unless there is a delimiter in it.
theorem Page.shown_text_read {o : Options} {loader : Loader} {resolver resolver' : Resolver}
    {name : String} {page : Page} (h : Page.read o loader resolver name = (.ok page, resolver'))
    {id : NodeId} {run : TextRun} (hid : id ∈ page.tree.preorder)
    (hkind : page.tree.kind id = .text run) (hne : run.text ≠ "")
    (hshown : ∀ a ∈ page.tree.ancestors id, showsBody (page.tree.kind a)) :
    (wrapped "text" run.text).toList <:+: page.view.toList ∧
      ∀ (includeUnit : Includer) (keepBlanks : Bool) (unit : String) (b : Builder) (root : NodeId),
        root < b.tree.size → b.scan = {} →
        ((∃ b', Strict.read includeUnit keepBlanks root unit (wrapped "text" run.text).toList b =
            .ok () b' ∧ Strict.GainsText b.tree root run.text b'.tree) ↔
          ∀ d : Dialect, ¬ [d.sign, '{'] <:+: run.text.toList) := by
  refine ⟨wrapped_infix_view (Page.wellFormed_read h) hid hkind hshown, ?_⟩
  intro includeUnit keepBlanks unit b root hroot hscan
  rw [Strict.exists_read_wrapped_iff hne hroot hscan, Composite.HasDelimiter, not_exists]

-- A page with a delimiter that is escaped.
def escapedPage : Loader := .ofUnits [("main.page", Text.Utf8.ofString "\\$\x7bx\x7d")]

-- The backslash is gone from the document, where the text is an expression.
theorem Page.shown_text_read_sample :
    ∃ page resolver run, Page.read {} escapedPage (.ofLibraries []) "main.page" =
        (.ok page, resolver) ∧
      page.tree.kind 1 = .text run ∧ run.text = "$\x7bx\x7d" ∧
      (wrapped "text" run.text).toList <:+: page.view.toList ∧
      ∀ (includeUnit : Includer) (keepBlanks : Bool) (unit : String) (b : Builder) (root : NodeId),
        root < b.tree.size → b.scan = {} →
        ¬ ∃ b', Strict.read includeUnit keepBlanks root unit (wrapped "text" run.text).toList b =
            .ok () b' ∧ Strict.GainsText b.tree root run.text b'.tree := by
  have hrun : Page.passes {} escapedPage (.ofLibraries []) "main.page" (fun page =>
      (page.tree.kind 1).run?.any (fun run => run.text == "$\x7bx\x7d") &&
        page.tree.preorder.contains 1 &&
        (page.tree.ancestors 1).all fun a => showsBody (page.tree.kind a)) := by
    decide +kernel
  obtain ⟨page, resolver, h, htest⟩ := Page.of_passes hrun
  simp only [Bool.and_eq_true, Option.any_eq_true, beq_iff_eq, List.contains_eq_mem,
    decide_eq_true_eq, List.all_eq_true] at htest
  obtain ⟨⟨⟨run, hrun, htext⟩, hid⟩, hshown⟩ := htest
  have hkind : page.tree.kind 1 = .text run := by
    cases hk : page.tree.kind 1 <;> rw [hk] at hrun <;> cases hrun
    rfl
  have hne : run.text ≠ "" := by
    rw [htext]
    decide
  obtain ⟨hview, hread⟩ := Page.shown_text_read h hid hkind hne hshown
  refine ⟨page, resolver, run, h, hkind, htext, hview, ?_⟩
  intro includeUnit keepBlanks unit b root hroot hscan
  rw [hread includeUnit keepBlanks unit b root hroot hscan, htext]
  intro hnone
  exact hnone .immediate (by decide)

end PageCompiler
