import PageCompiler.Proofs.Forms.Building
import PageCompiler.Proofs.Forms.Events
import PageCompiler.Proofs.Reading.Placement

-- The events of the document are taken one by one, and a run of text waits for the tag behind it.
namespace PageCompiler.Strict

open Text PageCompiler.Tree Template Builder
open Markup (readFrom piece? Located Event)

variable {x : Context} {s s' : State} {b b' : Builder} {frames : List Frame} {tail : List Char}

-- Reads what is left of a document.
def readOn (x : Context) (s : State) (d : Markup.Document) : BuildM Unit := do
  let s ← d.events.foldlM (readEvent x) s
  match d.broken with
  | some offset => fail (.markup "<xml>") (x.markAt offset)
  | none =>
    readEnd x s d.stop
    let s ← flush x s
    match s.frames with
    | frame :: _ => fail (.unterminated ("<" ++ frame.name ++ ">")) frame.mark
    | [] => return

theorem readDocument_eq (x : Context) (d : Markup.Document) :
    readDocument x d = readOn x {} d := rfl

theorem readOn_cons {d : Markup.Document} {e : Located} {u : Unit}
    (h : readOn x s (d.cons e) b = .ok u b') :
    ∃ s₁ b₁, readEvent x s e b = .ok s₁ b₁ ∧ readOn x s₁ d b₁ = .ok u b' := by
  unfold readOn at h
  rw [Markup.Document.cons, List.foldlM_cons, bind_assoc] at h
  obtain ⟨s₁, b₁, hevent, h⟩ := BuildM.bind_eq_ok.mp h
  exact ⟨s₁, b₁, hevent, h⟩

-- Reading comes to a good end, from a state with this text ahead and these elements open.
structure Going (x : Context) (b' : Builder) (frames : List Frame) (text : List Char) (s : State)
    (b : Builder) : Prop where
  read_eq : ∃ offset, readOn x s (readFrom frames.length offset text) b = .ok () b'
  frames_eq : s.frames = frames
  standard_iff : ∀ name, name ∈ s.standard ↔ name = standardSpace

theorem Going.parent_eq {frame : Frame} {text : List Char}
    (h : Going x b' (frame :: frames) text s b) :
    s.parent x = frame.id := by
  rw [State.parent, h.frames_eq]
  rfl

theorem Going.content_eq {frame : Frame} {text : List Char}
    (h : Going x b' (frame :: frames) text s b) :
    s.content = frame.content := by
  rw [State.content, h.frames_eq]
  rfl

-- A piece of markup is taken up.
theorem Going.event {rest : List Char} {p : Markup.Piece} {d : Nat}
    (h : Going x b' frames ('<' :: rest) s b) (hp : piece? rest = .ok p)
    (hd : p.event.depth? frames.length = some d) :
    ∃ start stop s₁ b₁, readEvent x s ⟨p.event, start, stop⟩ b = .ok s₁ b₁ ∧
      readOn x s₁ (readFrom d stop p.rest) b₁ = .ok () b' := by
  obtain ⟨offset, hread⟩ := h.read_eq
  obtain ⟨stop, hevents⟩ := Markup.readFrom_piece hp hd offset
  rw [hevents] at hread
  obtain ⟨s₁, b₁, hevent, hread⟩ := readOn_cons hread
  exact ⟨offset, stop, s₁, b₁, hevent, hread⟩

-- Outside of verbatim bodies every event is markup.
theorem readEvent_eq (hc : ∀ depth, s.content ≠ .verbatim depth) (e : Located) :
    readEvent x s e = readMarkup x s e := by
  unfold readEvent
  split
  · rename_i heq
    exact absurd heq (hc _)
  · rfl

theorem Going.text {run : List Char} (hrun : lacks ['<', '&'] run)
    (h : Going x b' frames (run ++ '<' :: tail) s b) (hs : s.pending = [])
    (hc : ∀ depth, s.content ≠ .verbatim depth) :
    ∃ s₁, Going x b' frames ('<' :: tail) s₁ b ∧ s₁.pending.reverse = run := by
  by_cases hne : run = []
  · subst hne
    exact ⟨s, h, by simp [hs]⟩
  · have hlt : '<' ∉ run := fun hm => ne_of_lacks hrun hm (by decide) rfl
    have hamp : '&' ∉ run := fun hm => ne_of_lacks hrun hm (by decide) rfl
    obtain ⟨offset, hread⟩ := h.read_eq
    obtain ⟨stop, hevents⟩ := Markup.readFrom_text hne hlt frames.length offset tail
    rw [hevents] at hread
    obtain ⟨s₁, b₁, hevent, hread⟩ := readOn_cons hread
    rw [readEvent_eq hc, readMarkup] at hevent
    simp only [Markup.unescape?_eq hamp] at hevent
    cases hevent
    exact ⟨_, ⟨⟨stop, hread⟩, h.frames_eq, h.standard_iff⟩, by simp [State.push, hs]⟩

variable {resolver : Resolver} {space : List Char} {ref : LibraryRef}

theorem flush_markup (h : flush x s b = .ok s' b') (hc : s.content = .markup)
    (hk : x.keepBlanks = false) (hr : Ready resolver (String.ofList space) ref b)
    (hp : s.parent x < b.tree.size) :
    Extends resolver (String.ofList space) ref b (s.parent x) (runShape false s.pending.reverse)
      b' := by
  unfold flush at h
  split at h
  · rename_i hempty
    have hnil : s.pending = [] := by simpa using hempty
    cases h
    rw [hnil, List.reverse_nil, runShape_nil]
    exact .refl hr _
  · rw [hc, hk] at h
    dsimp only at h
    by_cases hb : allBlank s.pending.reverse
    · rw [hb] at h
      cases h
      rw [(runShape_blank hb).1]
      exact .refl hr _
    · rw [Bool.not_eq_true] at hb
      rw [hb] at h
      obtain ⟨_, b₁, hadd, h⟩ := BuildM.bind_eq_ok.mp h
      cases h
      rw [runShape_of_not_blank hb]
      exact addText_extends hadd hr hp

theorem codeValue?_eq_none {value : List Char} (h : isValue value) :
    codeValue? (String.ofList value) = none := by
  have hopen : stripStart? ['%', '='] value = none := by
    cases value with
    | nil => rfl
    | cons c value =>
      exact Expression.stripStart?_head_ne
        (ne_of_lacks h (List.mem_cons_self ..) (by decide)).symm _ _
  have hstart : withoutStart? "%=" (String.ofList value) = none := by
    rw [withoutStart?, String.toList_ofList]
    simp [hopen]
  rw [codeValue?, hstart]
  rfl

theorem readAttributes_given {name : List Char} (hn : isName name)
    {attrs : List (List Char × List Char)} (ha : ∀ a ∈ attrs, isName a.1 ∧ isValue a.2)
    {mark : Mark} {read : List Attribute}
    (h : readAttributes (tagText name attrs) mark b = .ok read b') :
    b' = b ∧ Given attrs read := by
  unfold readAttributes at h
  rw [Markup.attributes?_tagText hn ha] at h
  by_cases hd : Markup.StartTag.distinct attrs
  · rw [if_pos hd] at h
    cases h
    refine ⟨rfl, ?_⟩
    clear hd
    induction attrs with
    | nil => exact ⟨rfl, by simp [attributePairs]⟩
    | cons a attrs ih =>
      obtain ⟨hpairs, hcode⟩ := ih fun a hm => ha a (List.mem_cons_of_mem _ hm)
      have hvalue := codeValue?_eq_none (ha a (List.mem_cons_self ..)).2
      rw [attributePairs, List.map_map] at hpairs hcode
      refine ⟨?_, ?_⟩
      · rw [attributePairs, List.map_cons, List.map_map, List.map_cons, hpairs]
        simp [hvalue]
      · intro r hr
        rw [attributePairs, List.map_map, List.map_cons] at hr
        rcases List.mem_cons.mp hr with rfl | hr
        · simp [hvalue]
        · exact hcode r hr
  · rw [if_neg hd] at h
    exact absurd h fail_ne_ok

-- An attribute that declares nothing is kept.
theorem declareOne_plain {mark : Mark} {d d' : Declared} {a : Attribute}
    (hx : withoutStart? "xmlns:" a.name = none) (hne : a.name ≠ "xmlns")
    (h : declareOne mark d a b = .ok d' b') : b' = b ∧ d' = { d with plain := d.plain ++ [a] } := by
  unfold declareOne at h
  rw [hx] at h
  simp only [if_neg hne] at h
  cases h
  exact ⟨rfl, rfl⟩

theorem declare_plain {standard : List String} {mark : Mark} {read : List Attribute} {d : Declared}
    (hp : ∀ a ∈ read, withoutStart? "xmlns:" a.name = none ∧ a.name ≠ "xmlns")
    (h : declare standard read mark b = .ok d b') :
    b' = b ∧ d.standard = standard ∧ d.plain = read := by
  have hfold : ∀ {read : List Attribute} {d₀ : Declared} {b : Builder},
      (∀ a ∈ read, withoutStart? "xmlns:" a.name = none ∧ a.name ≠ "xmlns") →
      read.foldlM (declareOne mark) d₀ b = .ok d b' →
      b' = b ∧ d = { d₀ with plain := d₀.plain ++ read } := by
    intro read
    induction read with
    | nil =>
      intro d₀ b _ h
      cases h
      exact ⟨rfl, by simp⟩
    | cons a read ih =>
      intro d₀ b hp h
      rw [List.foldlM_cons] at h
      obtain ⟨d₁, b₁, hone, h⟩ := BuildM.bind_eq_ok.mp h
      obtain ⟨hx, hne⟩ := hp a (List.mem_cons_self ..)
      obtain ⟨rfl, rfl⟩ := declareOne_plain hx hne hone
      obtain ⟨hb, hd⟩ := ih (fun a hm => hp a (List.mem_cons_of_mem _ hm)) h
      exact ⟨hb, by simp [hd]⟩
  obtain ⟨hb, rfl⟩ := hfold hp h
  exact ⟨hb, rfl, by simp⟩

theorem not_namespace {attrs : List (List Char × List Char)} (ha : attrs.all isAttribute)
    {read : List Attribute} (hg : Given attrs read) :
    ∀ a ∈ read, withoutStart? "xmlns:" a.name = none ∧ a.name ≠ "xmlns" := by
  intro a hm
  have hpair : (a.name, a.value) ∈ attributePairs attrs := by
    rw [← hg.1]
    exact List.mem_map_of_mem hm
  obtain ⟨w, hw, heq⟩ := List.mem_map.mp hpair
  have hattr := List.all_eq_true.mp ha w hw
  simp only [isAttribute, Bool.and_eq_true, Bool.not_eq_true', bne_iff_ne, ne_eq, startsWith,
    Option.isSome_eq_false_iff, Option.isNone_iff_eq_none] at hattr
  have hname : a.name = String.ofList w.1 := (congrArg Prod.fst heq).symm
  have hcolon : stripStart? ['x', 'm', 'l', 'n', 's', ':'] w.1 = none := hattr.1.2
  refine ⟨?_, ?_⟩
  · rw [hname, withoutStart?, String.toList_ofList]
    simp [hcolon]
  · rw [hname]
    intro hxmlns
    exact hattr.1.1.2 (by rw [← hxmlns, String.toList_ofList])

-- A tag is taken up behind the text so far.
theorem Going.tag {rest : List Char} {p : Markup.Piece} {d : Nat}
    {f : State → Nat → BuildM State}
    (hf : ∀ start stop, readMarkup x s ⟨p.event, start, stop⟩ = flush x s >>= fun s => f s start)
    (h : Going x b' frames ('<' :: rest) s b) (hp : piece? rest = .ok p)
    (hd : p.event.depth? frames.length = some d) (hc : ∀ depth, s.content ≠ .verbatim depth) :
    ∃ start stop s₁ b₁ s₂ b₂, flush x s b = .ok s₁ b₁ ∧ f s₁ start b₁ = .ok s₂ b₂ ∧
      readOn x s₂ (readFrom d stop p.rest) b₂ = .ok () b' := by
  obtain ⟨start, stop, s₂, b₂, hevent, hread⟩ := h.event hp hd
  rw [readEvent_eq hc, hf] at hevent
  obtain ⟨s₁, b₁, hflush, hread'⟩ := BuildM.bind_eq_ok.mp hevent
  exact ⟨start, stop, s₁, b₁, s₂, b₂, hflush, hread', hread⟩

theorem Going.opening {name : List Char} (hn : isName name)
    {attrs : List (List Char × List Char)} (ha : ∀ a ∈ attrs, isName a.1 ∧ isValue a.2)
    (h : Going x b' frames ('<' :: (tagText name attrs ++ '>' :: tail)) s b)
    (hc : ∀ depth, s.content ≠ .verbatim depth) :
    ∃ start stop s₁ b₁ s₂ b₂, flush x s b = .ok s₁ b₁ ∧
      startElement x s₁ (tagText name attrs) start true b₁ = .ok s₂ b₂ ∧
      readOn x s₂ (readFrom (frames.length + 1) stop tail) b₂ = .ok () b' :=
  Going.tag (fun _ _ => rfl) h (Markup.piece?_opening hn ha tail) rfl hc

theorem Going.empty {name : List Char} (hn : isName name)
    {attrs : List (List Char × List Char)} (ha : ∀ a ∈ attrs, isName a.1 ∧ isValue a.2)
    (h : Going x b' frames ('<' :: (tagText name attrs ++ '/' :: '>' :: tail)) s b)
    (hc : ∀ depth, s.content ≠ .verbatim depth) :
    ∃ start stop s₁ b₁ s₂ b₂, flush x s b = .ok s₁ b₁ ∧
      startElement x s₁ (tagText name attrs) start false b₁ = .ok s₂ b₂ ∧
      readOn x s₂ (readFrom frames.length stop tail) b₂ = .ok () b' :=
  Going.tag (fun _ _ => rfl) h (Markup.piece?_empty hn ha tail) rfl hc

-- An end tag closes the innermost element behind the text so far.
theorem Going.closing {name : List Char} (hn : isName name) {frame : Frame}
    (h : Going x b' (frame :: frames) (endTagText name ++ tail) s b)
    (hc : ∀ depth, frame.content ≠ .verbatim depth) :
    ∃ s₁ b₁ s₂ b₂, flush x s b = .ok s₁ b₁ ∧ close frame.id frame.content b₁ = .ok () b₂ ∧
      Going x b' frames tail s₂ b₂ ∧ s₂.pending = [] := by
  have hcontent := h.content_eq
  rw [endTagText, List.cons_append, List.cons_append, List.append_assoc, List.singleton_append] at h
  obtain ⟨start, stop, s₁, b₁, s₂, b₂, hflush, hend, hread⟩ := Going.tag (fun _ _ => rfl) h
    (Markup.piece?_closing hn tail) rfl (by rw [hcontent]; exact hc)
  have hstate := flush_state hflush
  unfold endElement at hend
  rw [hstate, h.frames_eq] at hend
  dsimp only at hend
  split at hend
  · obtain ⟨_, b₃, hclose, hend⟩ := BuildM.bind_eq_ok.mp hend
    cases hend
    exact ⟨s₁, b₁, _, b₂, hflush, hclose, ⟨⟨stop, hread⟩, rfl, h.standard_iff⟩, rfl⟩
  · exact absurd hend fail_ne_ok

-- What is left to do for an element that has its node.
def enter (s : State) (name : String) (mark : Mark) (hasBody : Bool) (id : NodeId)
    (content : Content) : BuildM State := do
  if hasBody then
    modifyTree (·.openBody id)
    return { s with frames := ⟨id, name, content, mark⟩ :: s.frames }
  close id content
  return s

theorem startElement_eq_ok {inside : List Char} {offset : Nat} {hasBody : Bool}
    (h : startElement x s inside offset hasBody b = .ok s' b') {space inner : String}
    (hcut : cutString? ':' (String.ofList (Markup.StartTag.name inside)) = some (space, inner)) :
    ∃ mark read declared b₁ b₂, readAttributes inside mark b = .ok read b₁ ∧
      declare s.standard read mark b₁ = .ok declared b₂ ∧
      (space ∈ declared.standard →
        ∃ id content b₃,
          startStandard x (s.parent x) inner declared.plain mark hasBody b₂ = .ok (id, content) b₃ ∧
          enter { s with standard := declared.standard }
            (String.ofList (Markup.StartTag.name inside)) mark hasBody id content b₃ = .ok s' b') ∧
      (space ∉ declared.standard → space ≠ "" → b₂.bindings.isBound space →
        ∃ id b₃,
          startAction (s.parent x) (String.ofList (Markup.StartTag.name inside)) declared.plain mark
            .strict b₂ = .ok id b₃ ∧
          (bodyContent? b₃.tree id ≠ some .verbatim →
            enter { s with standard := declared.standard }
              (String.ofList (Markup.StartTag.name inside)) mark hasBody id .markup b₃ =
                .ok s' b')) := by
  unfold startElement at h
  obtain ⟨read, b₁, hread, h⟩ := BuildM.bind_eq_ok.mp h
  obtain ⟨declared, b₂, hdeclare, h⟩ := BuildM.bind_eq_ok.mp h
  rw [hcut] at h
  obtain ⟨_, _, hget, h⟩ := BuildM.bind_eq_ok.mp h
  cases hget
  refine ⟨_, read, declared, b₁, b₂, hread, hdeclare, fun hs => ?_, fun hs hne hb => ?_⟩
  · rw [if_pos (by simpa using hs)] at h
    obtain ⟨⟨id, content⟩, b₃, hstart, h⟩ := BuildM.bind_eq_ok.mp h
    exact ⟨id, content, b₃, hstart, h⟩
  · rw [if_neg (by simpa using hs), if_pos (by simp [hb, hne])] at h
    obtain ⟨id, b₃, hstart, h⟩ := BuildM.bind_eq_ok.mp h
    refine ⟨id, b₃, hstart, fun hc => ?_⟩
    obtain ⟨_, _, hget, h⟩ := BuildM.bind_eq_ok.mp h
    cases hget
    have hverbatim : (bodyContent? b₃.tree id == some .verbatim) = false := by simpa using hc
    rw [hverbatim] at h
    exact h

theorem close_markup {id : Nat} (h : isUninterpreted (b.tree.kind id) = false) :
    close id .markup b = finishElement id b := by
  change (if Content.markup = .code || Content.markup = .directive ||
    isUninterpreted (b.tree.kind id) then pure () else finishElement id : BuildM Unit) b = _
  rw [h, if_neg (by decide)]

theorem startElement_action (hu : Usable space) {name : List Char} (hn : isName name)
    {attrs : List (List Char × List Char)} (ha : attrs.all isAttribute)
    (hstructured : Structured resolver ref [String.ofList name])
    (hs : ∀ name, name ∈ s.standard ↔ name = standardSpace) {offset : Nat} {hasBody : Bool}
    (h : startElement x s (tagText (qualified space name) attrs) offset hasBody b = .ok s' b')
    (hr : Ready resolver (String.ofList space) ref b) (hp : s.parent x < b.tree.size) :
    ∃ read mark b₁, Given attrs read ∧
      Begun resolver (String.ofList space) ref b (s.parent x)
        (String.ofList (qualified space name)) read b₁ ∧
      enter s (String.ofList (qualified space name)) mark hasBody b.tree.size .markup b₁ =
        .ok s' b' := by
  have hname := isName_qualified hu.portable hn
  have hcut := cutString?_qualified hu.portable name
  have htag := (Markup.span_tagText hname attrs).1
  rw [← htag] at hcut
  obtain ⟨mark, read, declared, b₁, b₂, hread, hdeclare, -, haction⟩ := startElement_eq_ok h hcut
  obtain ⟨rfl, hgiven⟩ := readAttributes_given hname (parts_of_isAttribute ha) hread
  obtain ⟨rfl, hstandard, hplain⟩ := declare_plain (not_namespace ha hgiven) hdeclare
  rw [hstandard, hplain, htag] at haction
  have hspace : String.ofList space ∉ s.standard := by
    rw [hs]
    exact hu.ne_standardSpace
  obtain ⟨id, b₃, hstart, henter⟩ := haction hspace (ofList_ne_empty hu.portable) hr.isBound
  rw [htag] at hcut
  obtain ⟨rfl, hbegun⟩ := startAction_begun hr hu.ne_standardSpace hcut hstructured hp hstart
  exact ⟨read, mark, b₃, hgiven, hbegun, henter hbegun.not_verbatim⟩

theorem isName_elementName (kind : ScriptKind) : isName kind.elementName.toList := by
  cases kind <;> decide

theorem cutString?_elementName (kind : ScriptKind) :
    ∃ inner, cutString? ':' kind.elementName = some (standardSpace, inner) ∧
      withoutStart? "directive." inner = none ∧ scriptKind? inner = some kind := by
  cases kind with
  | declaration => exact ⟨"declaration", by decide, by decide, rfl⟩
  | expression => exact ⟨"expression", by decide, by decide, rfl⟩
  | scriptlet => exact ⟨"scriptlet", by decide, by decide, rfl⟩

theorem startElement_script {kind : ScriptKind} {offset : Nat}
    (hs : ∀ name, name ∈ s.standard ↔ name = standardSpace)
    (h : startElement x s (tagText kind.elementName.toList []) offset true b = .ok s' b')
    (hr : Ready resolver (String.ofList space) ref b) (hp : s.parent x < b.tree.size) :
    ∃ n mark, n.kind = .script kind .children ∧ Opened b.tree (s.parent x) n b'.tree ∧
      Ready resolver (String.ofList space) ref b' ∧
      s' = { s with frames := ⟨b.tree.size, kind.elementName, .code, mark⟩ :: s.frames } := by
  have hname := isName_elementName kind
  obtain ⟨inner, hcut, hdirective, hkind⟩ := cutString?_elementName kind
  have htag : String.ofList (Markup.StartTag.name (tagText kind.elementName.toList [])) =
      kind.elementName := by
    rw [(Markup.span_tagText hname []).1, String.ofList_toList]
  rw [← htag] at hcut
  obtain ⟨mark, read, declared, b₁, b₂, hread, hdeclare, hstart, -⟩ := startElement_eq_ok h hcut
  obtain ⟨rfl, hpairs, -⟩ := readAttributes_given hname (by simp) hread
  obtain rfl : read = [] := by simpa [attributePairs] using hpairs
  obtain ⟨rfl, hstandard, hplain⟩ := declare_plain (by simp) hdeclare
  rw [hstandard, hplain, htag] at hstart
  obtain ⟨id, content, b₃, hnode, henter⟩ := hstart ((hs _).mpr rfl)
  unfold startStandard at hnode
  rw [hdirective, hkind] at hnode
  obtain ⟨_, _, hadd, hnode⟩ := BuildM.bind_eq_ok.mp hnode
  obtain ⟨rfl, rfl⟩ := append_eq_ok hadd
  cases hnode
  cases henter
  exact ⟨_, mark, rfl, (opened_append hp rfl).openBody hp, hr.withTree _, rfl⟩

theorem flush_code (h : flush x s b = .ok s' b') (hc : s.content = .code)
    (hr : Ready resolver (String.ofList space) ref b) (hp : s.parent x < b.tree.size) :
    ∃ inner, Extends resolver (String.ofList space) ref b (s.parent x) inner b' ∧
      (inner = .nil ∧ String.ofList s.pending.reverse = "" ∨
        inner = .text (String.ofList s.pending.reverse) .nil) := by
  unfold flush at h
  split at h
  · rename_i hempty
    have hnil : s.pending = [] := by simpa using hempty
    cases h
    exact ⟨.nil, .refl hr _, .inl ⟨rfl, by simp [hnil]⟩⟩
  · rename_i hne
    rw [hc] at h
    obtain ⟨_, b₁, hadd, h⟩ := BuildM.bind_eq_ok.mp h
    cases h
    unfold addVerbatim at hadd
    rw [if_neg (by simpa using hne)] at hadd
    cases hadd
    exact ⟨_, ⟨adds_text hp rfl rfl, hr.withTree _⟩, .inr rfl⟩

section

variable {frame : Frame}

theorem Going.flush_extends {text : List Char} (h : Going x b' (frame :: frames) text s b)
    {s₁ : State} {b₁ : Builder} (hf : flush x s b = .ok s₁ b₁) (hc : frame.content = .markup)
    (hk : x.keepBlanks = false) (hr : Ready resolver (String.ofList space) ref b)
    (hp : frame.id < b.tree.size) :
    Extends resolver (String.ofList space) ref b frame.id (runShape false s.pending.reverse) b₁ ∧
      frame.id < b₁.tree.size := by
  have hparent := h.parent_eq
  have hext := flush_markup hf (h.content_eq.trans hc) hk hr (by rw [hparent]; exact hp)
  rw [hparent] at hext
  have hle := hext.adds.size_le
  exact ⟨hext, Nat.lt_of_lt_of_le hp hle⟩

-- Nothing but the text is gone.
theorem Going.flushed {text : List Char} (h : Going x b' (frame :: frames) text s b)
    {s₁ : State} {b₁ : Builder} (hf : flush x s b = .ok s₁ b₁) :
    s₁.parent x = frame.id ∧ s₁.frames = frame :: frames ∧ s₁.pending = [] ∧
      ∀ name, name ∈ s₁.standard ↔ name = standardSpace := by
  have hparent := h.parent_eq
  rw [flush_state hf]
  exact ⟨hparent, h.frames_eq, rfl, h.standard_iff⟩

theorem Going.script {kind : ScriptKind} {code : List Char} (hcode : isCode code)
    (h : Going x b' (frame :: frames) (scriptElement kind code ++ tail) s b)
    (hc : frame.content = .markup) (hk : x.keepBlanks = false)
    (hr : Ready resolver (String.ofList space) ref b) (hp : frame.id < b.tree.size) :
    ∃ s₁ b₁, Going x b' (frame :: frames) tail s₁ b₁ ∧ s₁.pending = [] ∧
      Extends resolver (String.ofList space) ref b frame.id
        ((runShape false s.pending.reverse).append (.script kind (String.ofList code) .nil))
        b₁ := by
  have hname := isName_elementName kind
  have hlacks : lacks ['<', '&'] code := lacks_mono hcode rfl
  have htext : scriptElement kind code ++ tail = '<' :: (tagText kind.elementName.toList [] ++
      '>' :: (code ++ (endTagText kind.elementName.toList ++ tail))) := by
    simp [scriptElement, tagText, attributesText]
  rw [htext] at h
  obtain ⟨start, stop, s₁, b₁, s₂, b₂, hflush, hstart, hread⟩ :=
    h.opening hname (by simp) (by simp [h.content_eq, hc])
  obtain ⟨hext, hp₁⟩ := h.flush_extends hflush hc hk hr hp
  obtain ⟨hparent, hframes, hempty, hstandard⟩ := h.flushed hflush
  obtain ⟨n, mark, hkind, hopen, hready, rfl⟩ :=
    startElement_script hstandard hstart hext.ready (by rw [hparent]; exact hp₁)
  rw [hparent] at hopen
  -- The code is the text of a new innermost element.
  have hinside : Going x b' (⟨b₁.tree.size, kind.elementName, .code, mark⟩ :: frame :: frames)
      (code ++ (endTagText kind.elementName.toList ++ tail)) _ b₂ :=
    ⟨⟨stop, hread⟩, by rw [hframes], hstandard⟩
  rw [endTagText, List.cons_append] at hinside
  obtain ⟨s₃, hinside, hpending⟩ := hinside.text hlacks hempty (by simp [hinside.content_eq])
  rw [← List.cons_append, ← endTagText] at hinside
  obtain ⟨s₄, b₄, s₅, b₅, hlast, hclose, hgoing, hempty⟩ := hinside.closing hname (by simp)
  cases hclose
  have hsize : s₃.parent x < b₂.tree.size := by
    rw [hinside.parent_eq, hopen.size_eq]
    exact Nat.lt_succ_self _
  obtain ⟨inner, hinner, hcases⟩ := flush_code hlast hinside.content_eq hready hsize
  rw [hpending] at hcases
  rw [hinside.parent_eq] at hinner
  have hscript := adds_scriptBody hopen hp₁ hkind hcases hinner.adds
  exact ⟨s₅, b₄, hgoing, hempty, hext.trans hp ⟨hscript, hinner.ready⟩⟩

-- The tag of an action that has no body.
theorem Going.action_empty (hu : Usable space) {name : List Char} (hn : isName name)
    {attrs : List (List Char × List Char)} (ha : attrs.all isAttribute)
    (hstructured : Structured resolver ref [String.ofList name])
    (h : Going x b' (frame :: frames)
      ('<' :: (tagText (qualified space name) attrs ++ '/' :: '>' :: tail)) s b)
    (hc : frame.content = .markup) (hk : x.keepBlanks = false)
    (hr : Ready resolver (String.ofList space) ref b) (hp : frame.id < b.tree.size) :
    ∃ s₁ b₁, Going x b' (frame :: frames) tail s₁ b₁ ∧ s₁.pending = [] ∧
      Extends resolver (String.ofList space) ref b frame.id
        ((runShape false s.pending.reverse).append
          (.action (String.ofList (qualified space name)) (attributePairs attrs) .nil .nil))
        b₁ := by
  obtain ⟨start, stop, s₁, b₁, s₂, b₂, hflush, hstart, hread⟩ :=
    h.empty (isName_qualified hu.portable hn) (parts_of_isAttribute ha) (by simp [h.content_eq, hc])
  obtain ⟨hext, hp₁⟩ := h.flush_extends hflush hc hk hr hp
  obtain ⟨hparent, hframes, hempty, hstandard⟩ := h.flushed hflush
  obtain ⟨read, mark, b₃, ⟨hpairs, hcode⟩, hbegun, henter⟩ :=
    startElement_action hu hn ha hstructured hstandard hstart hext.ready
      (by rw [hparent]; exact hp₁)
  rw [hparent] at hbegun
  obtain ⟨_, b₄, hclose, henter⟩ := BuildM.bind_eq_ok.mp henter
  cases henter
  have hinner := Extends.refl hbegun.ready b₁.tree.size
  obtain ⟨data, hkind⟩ := hbegun.kind_eq hinner
  rw [close_markup (by rw [hkind]; rfl)] at hclose
  have haction := hbegun.finish hp₁ (ofList_qualified_ne space name) hcode hinner hclose
  rw [hpairs] at haction
  exact ⟨_, b₂, ⟨⟨stop, hread⟩, hframes, hstandard⟩, hempty, hext.trans hp haction⟩

-- The tag in front of the body of an action.
theorem Going.action_open (hu : Usable space) {name : List Char} (hn : isName name)
    {attrs : List (List Char × List Char)} (ha : attrs.all isAttribute)
    (hstructured : Structured resolver ref [String.ofList name])
    (h : Going x b' (frame :: frames)
      ('<' :: (tagText (qualified space name) attrs ++ '>' :: tail)) s b)
    (hc : frame.content = .markup) (hk : x.keepBlanks = false)
    (hr : Ready resolver (String.ofList space) ref b) (hp : frame.id < b.tree.size) :
    ∃ read mark s₁ b₁ b₂, Given attrs read ∧
      Extends resolver (String.ofList space) ref b frame.id (runShape false s.pending.reverse) b₁ ∧
      Begun resolver (String.ofList space) ref b₁ frame.id (String.ofList (qualified space name))
        read b₂ ∧
      Going x b' (⟨b₁.tree.size, String.ofList (qualified space name), .markup, mark⟩ ::
        frame :: frames) tail s₁ b₂ ∧ s₁.pending = [] := by
  obtain ⟨start, stop, s₁, b₁, s₂, b₂, hflush, hstart, hread⟩ :=
    h.opening (isName_qualified hu.portable hn) (parts_of_isAttribute ha)
      (by simp [h.content_eq, hc])
  obtain ⟨hext, hp₁⟩ := h.flush_extends hflush hc hk hr hp
  obtain ⟨hparent, hframes, hempty, hstandard⟩ := h.flushed hflush
  obtain ⟨read, mark, b₃, hgiven, hbegun, henter⟩ :=
    startElement_action hu hn ha hstructured hstandard hstart hext.ready
      (by rw [hparent]; exact hp₁)
  rw [hparent] at hbegun
  obtain ⟨_, b₄, hopen, henter⟩ := BuildM.bind_eq_ok.mp henter
  cases hopen
  cases henter
  exact ⟨read, mark, _, b₁, _, hgiven, hext, hbegun.openBody hp₁,
    ⟨⟨stop, hread⟩, by rw [hframes], hstandard⟩, hempty⟩

theorem Going.template {template : Template} (hu : Usable space) (hlegal : template.isLegal)
    (hstructured : Structured resolver ref template.actions) (run : List Char)
    (hrun : lacks ['<', '&'] run)
    (h : Going x b' (frame :: frames) (run ++ (template.write scriptElement space ++ '<' :: tail)) s
      b)
    (hs : s.pending = []) (hc : frame.content = .markup) (hk : x.keepBlanks = false)
    (hr : Ready resolver (String.ofList space) ref b) (hp : frame.id < b.tree.size) :
    ∃ s₁ b₁, Going x b' (frame :: frames) ('<' :: tail) s₁ b₁ ∧
      ∀ s₂ b₂, flush x s₁ b₁ = .ok s₂ b₂ →
        Extends resolver (String.ofList space) ref b frame.id (template.shape false space run)
          b₂ := by
  induction template generalizing frame frames tail run s b with
  | nil =>
    obtain ⟨s₁, hgoing, hpending⟩ := h.text hrun hs (by simp [h.content_eq, hc])
    refine ⟨s₁, b, hgoing, fun s₂ b₂ hflush => ?_⟩
    have hext := (hgoing.flush_extends hflush hc hk hr hp).1
    rwa [hpending] at hext
  | text value rest ih =>
    simp only [isLegal, Bool.and_eq_true] at hlegal
    rw [write, List.append_assoc, ← List.append_assoc] at h
    exact ih hlegal.2 hstructured _ (lacks_append hrun (lacks_mono hlegal.1 rfl)) h hs hc hr hp
  | insert source rest ih =>
    simp only [isLegal, Bool.and_eq_true] at hlegal
    rw [write, List.append_assoc, ← List.append_assoc] at h
    exact ih hlegal.2 hstructured _ (lacks_append hrun (lacks_insertText hlegal.1)) h hs hc hr hp
  | script kind code rest ih =>
    simp only [isLegal, Bool.and_eq_true] at hlegal
    rw [write, List.append_assoc, scriptElement, List.cons_append] at h
    obtain ⟨s₁, hgoing, hpending⟩ := h.text hrun hs (by simp [h.content_eq, hc])
    rw [← List.cons_append, ← scriptElement] at hgoing
    obtain ⟨s₂, b₂, hgoing, hempty, hext⟩ := hgoing.script hlegal.1 hc hk hr hp
    rw [hpending] at hext
    have hle := hext.adds.size_le
    obtain ⟨s₃, b₃, hgoing, hflush⟩ := ih hlegal.2 hstructured [] rfl hgoing hempty hc
      hext.ready (Nat.lt_of_lt_of_le hp hle)
    refine ⟨s₃, b₃, hgoing, fun s₄ b₄ hf => ?_⟩
    have hall := hext.trans hp (hflush s₄ b₄ hf)
    rwa [Shape.append_assoc] at hall
  | empty name attrs rest ih =>
    simp only [isLegal, Bool.and_eq_true] at hlegal
    obtain ⟨⟨hname, hattrs⟩, hrest⟩ := hlegal
    rw [write, List.cons_append, List.append_assoc] at h
    obtain ⟨s₁, hgoing, hpending⟩ := h.text hrun hs (by simp [h.content_eq, hc])
    obtain ⟨s₂, b₂, hgoing, hempty, hext⟩ := hgoing.action_empty hu hname hattrs
      (hstructured.mono (by simp [actions])) hc hk hr hp
    rw [hpending] at hext
    have hle := hext.adds.size_le
    obtain ⟨s₃, b₃, hgoing, hflush⟩ := ih hrest
      (hstructured.mono (by simp [actions])) [] rfl hgoing hempty hc hext.ready
      (Nat.lt_of_lt_of_le hp hle)
    refine ⟨s₃, b₃, hgoing, fun s₄ b₄ hf => ?_⟩
    have hall := hext.trans hp (hflush s₄ b₄ hf)
    rwa [Shape.append_assoc] at hall
  | element name attrs body rest ihb ih =>
    simp only [isLegal, Bool.and_eq_true] at hlegal
    obtain ⟨⟨⟨hname, hattrs⟩, hbody⟩, hrest⟩ := hlegal
    rw [write, List.cons_append, List.append_assoc, List.cons_append, List.append_assoc,
      List.append_assoc] at h
    obtain ⟨s₁, hgoing, hpending⟩ := h.text hrun hs (by simp [h.content_eq, hc])
    obtain ⟨read, mark, s₂, b₁, b₂, ⟨hpairs, hcode⟩, hext, hbegun, hinside, hempty⟩ :=
      hgoing.action_open hu hname hattrs
        (hstructured.mono (by simp [actions])) hc hk hr hp
    rw [hpending] at hext
    have hp₁ := Nat.lt_of_lt_of_le hp hext.adds.size_le
    -- The body is read under the new node.
    have hnew : b₁.tree.size < b₂.tree.size := by
      obtain ⟨_, _, hopen, -⟩ := hbegun.opened
      have := hopen.size_eq
      omega
    rw [endTagText, List.cons_append] at hinside
    obtain ⟨s₃, b₃, hinside, hflush⟩ := ihb hbody
      (hstructured.mono (by simp [actions])) [] rfl hinside hempty rfl hbegun.ready hnew
    rw [← List.cons_append, ← endTagText] at hinside
    obtain ⟨s₄, b₄, s₅, b₅, hlast, hclose, hgoing, hempty⟩ :=
      hinside.closing (isName_qualified hu.portable hname) (by simp)
    have hinner := hflush _ _ hlast
    obtain ⟨data, hkind⟩ := hbegun.kind_eq hinner
    rw [close_markup (by rw [hkind]; rfl)] at hclose
    have haction := hbegun.finish hp₁ (ofList_qualified_ne space name) hcode hinner hclose
    rw [hpairs] at haction
    have hext₂ := hext.trans hp haction
    have hle := hext₂.adds.size_le
    obtain ⟨s₆, b₆, hgoing, hflush⟩ := ih hrest
      (hstructured.mono (by simp [actions])) [] rfl hgoing hempty hc hext₂.ready
      (Nat.lt_of_lt_of_le hp hle)
    refine ⟨s₆, b₆, hgoing, fun s₇ b₇ hf => ?_⟩
    have hall := hext₂.trans hp (hflush s₇ b₇ hf)
    rwa [Shape.append_assoc] at hall

end

end PageCompiler.Strict
