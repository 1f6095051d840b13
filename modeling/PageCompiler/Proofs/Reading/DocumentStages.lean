import PageCompiler.Proofs.Markup.Tiling
import PageCompiler.Proofs.Reading.Placement
import PageCompiler.Proofs.Reading.Stages

-- Character data is gathered over several events; what stands between them in the document is
-- missing from the run that they make up.
namespace PageCompiler

open Text

-- What is written at the front of a text is written there whatever follows.
theorem Attribute.WrittenAs.append {a : Attribute} {raw s : List Char} (h : a.WrittenAs raw s)
    (more : List Char) : a.WrittenAs raw (s ++ more) := by
  obtain ⟨gap, gap', rest, rfl, hgap, hgap', ⟨quote, behind, hquote, rfl⟩, hplain⟩ := h
  exact ⟨gap, gap', _, by simp, hgap, hgap', ⟨quote, behind ++ more, hquote, rfl⟩, hplain⟩

namespace Strict

open Builder
open Markup (Begins CharData Event Gathered Located Spelled Tiles)

variable {x : Context} {s s' : State} {offset : Nat} {rest : List Char}

-- What is passed over at the start of a document.
def Skipped (skipped : List Char) : Prop :=
  skipped = [] ∨ ∃ c : Char, skipped = [c] ∧ c.toNat = 0xFEFF

-- The rest of the document begins at the given byte, as it is counted.
def Context.At (x : Context) (offset : Nat) (rest : List Char) : Prop :=
  ∃ skipped front, Skipped skipped ∧ x.text = skipped ++ front ++ rest ∧ offset = byteSize front

-- The character data gathered so far stands in the document in front of the given byte.
def State.Gathers (s : State) (x : Context) (offset : Nat) (rest : List Char) : Prop :=
  ∃ (skipped lead : List Char) (d : CharData), Skipped skipped ∧
    x.text = skipped ++ lead ++ d.source ++ rest ∧ offset = byteSize (lead ++ d.source) ∧
    Begins x.text (byteSize lead) ∧ Spelled none d ∧ d.letters.values = s.pending.reverse ∧
    (s.pending ≠ [] → s.pendingStart = byteSize (lead ++ d.letters.gap))

theorem State.Gathers.at (h : s.Gathers x offset rest) : x.At offset rest := by
  obtain ⟨skipped, lead, d, hskipped, htext, hoffset, -⟩ := h
  exact ⟨skipped, lead ++ d.source, hskipped, by simpa using htext, hoffset⟩

-- Behind a tag or a comment nothing has been gathered yet.
theorem Context.At.gathers (h : x.At offset rest) (hbegins : Begins x.text offset)
    (hs : s.pending = []) : s.Gathers x offset rest := by
  obtain ⟨skipped, front, hskipped, htext, rfl⟩ := h
  refine ⟨skipped, front, {}, hskipped, ?_, ?_, hbegins, .nil, by rw [hs]; rfl,
    fun hne => absurd hs hne⟩
  · simpa [CharData.source, Letters.source] using htext
  · simp [CharData.source, Letters.source]

theorem Context.At.skip {piece : List Char} (h : x.At offset (piece ++ rest)) :
    x.At (offset + byteSize piece) rest := by
  obtain ⟨skipped, front, hskipped, htext, rfl⟩ := h
  exact ⟨skipped, front ++ piece, hskipped, by simpa using htext, (byteSize_append ..).symm⟩

theorem Context.At.suffix (h : x.At offset rest) : rest <:+ x.text := by
  obtain ⟨skipped, front, -, htext, -⟩ := h
  exact ⟨skipped ++ front, htext.symm⟩

-- What leaves no letter.
theorem State.Gathers.pass {inside more : List Char}
    (h : s.Gathers x offset ('<' :: inside ++ rest))
    (hother : Markup.piece? (inside ++ more) = .ok ⟨.other, more⟩) :
    s.Gathers x (offset + byteSize ('<' :: inside)) rest := by
  obtain ⟨skipped, lead, d, hskipped, htext, rfl, hbegins, hd, hvalues, hstart⟩ := h
  refine ⟨skipped, lead, d.pass ('<' :: inside), hskipped, ?_, ?_, hbegins, hd.other hother,
    hvalues, hstart⟩
  · rw [htext, CharData.source_pass]
    simp
  · rw [CharData.source_pass, ← List.append_assoc, byteSize_append (lead ++ d.source)]

-- More character data.
theorem State.Gathers.push {opening piece text : List Char}
    (h : s.Gathers x offset (piece ++ rest))
    (hpiece : ∀ {d : CharData}, Spelled none d →
      ∃ d', Spelled none d' ∧ d.Grows d' opening piece text) :
    (s.push text (offset + byteSize opening)).Gathers x (offset + byteSize piece) rest := by
  obtain ⟨skipped, lead, d, hskipped, htext, rfl, hbegins, hd, hvalues, hstart⟩ := h
  obtain ⟨d', hd', hgrows⟩ := hpiece hd
  have hnil : s.pending = [] ↔ d.letters = [] := by
    rw [← List.reverse_eq_nil_iff, ← hvalues, Letters.values, List.map_eq_nil_iff]
  refine ⟨skipped, lead, d', hskipped, ?_, ?_, hbegins, hd', ?_, fun hne => ?_⟩
  · rw [htext, hgrows.source_eq]
    simp
  · rw [hgrows.source_eq, ← List.append_assoc, byteSize_append (lead ++ d.source)]
  · rw [hgrows.values_eq, hvalues]
    simp [State.push]
  · by_cases hpending : s.pending = []
    · have htextne : text ≠ [] := by
        rintro rfl
        exact hne (by simpa [State.push] using hpending)
      have hletters := hnil.mp hpending
      rw [hgrows.first hletters htextne]
      simp [State.push, hpending, CharData.source, hletters, Letters.source, byteSize_append,
        Nat.add_assoc]
    · have hempty : s.pending.isEmpty = false := by simpa using hpending
      rw [State.push, hempty, hgrows.kept (hnil.not.mp hpending)]
      exact hstart hpending

-- The run that has been gathered.
theorem State.Gathers.runIn {data : UnitRoot} (h : s.Gathers x offset rest)
    (hunit : x.unit = data.unit) (hform : data.form = .strict) (hpending : s.pending ≠ []) :
    ∃ ls : Letters, ls.values = s.pending.reverse ∧
      RunIn data x.text (x.markAt s.pendingStart) ls := by
  obtain ⟨skipped, lead, d, hskipped, htext, -, hbegins, hd, hvalues, hstart⟩ := h
  refine ⟨d.letters.tidy, by rw [Letters.values_tidy, hvalues], (x.unit_markAt _).trans hunit,
    Letters.roomy_tidy hd.roomy, fun hrelaxed => ?_, ?_⟩
  · rw [hform] at hrelaxed
    cases hrelaxed
  · refine ⟨skipped, lead ++ d.letters.gap, d.gap ++ rest, ⟨?_, ?_⟩,
      hskipped.imp_right fun h => ⟨hform, h⟩, fun hrelaxed => ?_,
      fun _ => ⟨lead, rest, d, hd, hbegins, rfl, rfl, rfl⟩⟩
    · rw [htext, CharData.source, Letters.source_eq_gap_append]
      simp
    · rw [x.unit_markAt, hstart hpending]
      rfl
    · rw [hform] at hrelaxed
      cases hrelaxed

-- How far a document has been read. Data of a body that is left as it is need not be traced.
structure State.Reaches (s : State) (x : Context) (offset : Nat) (rest : List Char) : Prop where
  at_rest : x.At offset rest
  gathers : (∃ depth, s.content = .verbatim depth) ∨ s.Gathers x offset rest

theorem Context.At.reaches (h : x.At offset rest) (hbegins : Begins x.text offset)
    (hs : s.pending = []) : s.Reaches x offset rest := ⟨h, .inr (h.gathers hbegins hs)⟩

theorem State.Gathers.reaches (h : s.Gathers x offset rest) : s.Reaches x offset rest :=
  ⟨h.at, .inr h⟩

variable {units : Units} {data : UnitRoot} {b b' : Builder}

-- A document that is being read.
structure Context.Reads (x : Context) (units : Units) (data : UnitRoot) : Prop where
  includes : IncludesStages units x.includeUnit
  unit_eq : x.unit = data.unit
  form_eq : data.form = .strict
  known : units data x.text

theorem Context.Reads.unit_markAt (hx : x.Reads units data) (offset : Nat) :
    (x.markAt offset).unit = data.unit := (x.unit_markAt offset).trans hx.unit_eq

theorem Context.Reads.addVerbatim_stages (hx : x.Reads units data) {parent : NodeId}
    {text : List Char} {u : Unit} (h : addVerbatim parent text (x.markAt offset) b = .ok u b') :
    Stages units b b' :=
  Builder.addVerbatim_stages hx.known (holds_of_strict hx.form_eq) (hx.unit_markAt offset) h
    fun hrelaxed => by
      rw [hx.form_eq] at hrelaxed
      cases hrelaxed

theorem flush_stages (hx : x.Reads units data) (h : flush x s b = .ok s' b')
    (hs : s.Reaches x offset rest) : Stages units b b' := by
  unfold flush at h
  split at h
  · cases h
    exact .refl
  · rename_i hempty
    have hpending : s.pending ≠ [] := fun hnil => hempty (List.isEmpty_iff.mpr hnil)
    have hadd : ∀ {u : Unit} {b' : Builder}, (∀ depth, s.content ≠ .verbatim depth) →
        addText (s.parent x) s.pending.reverse (x.markAt s.pendingStart) b = .ok u b' →
        Stages units b b' := fun hcontent h => by
      have hgathers := hs.gathers.resolve_left (not_exists.mpr hcontent)
      obtain ⟨ls, hvalues, hrun⟩ := hgathers.runIn hx.unit_eq hx.form_eq hpending
      rw [← hvalues] at h
      exact addText_stages hx.known (holds_of_strict hx.form_eq) hrun h
    cases hc : s.content with
    | code | verbatim _ =>
      rw [hc] at h
      obtain ⟨_, b₁, hverbatim, h⟩ := BuildM.bind_eq_ok.mp h
      cases h
      exact hx.addVerbatim_stages hverbatim
    | text =>
      rw [hc] at h
      obtain ⟨_, b₁, htext, h⟩ := BuildM.bind_eq_ok.mp h
      cases h
      exact hadd (by simp [hc]) htext
    | directive =>
      rw [hc] at h
      dsimp only at h
      split at h
      · cases h
        exact .refl
      · obtain ⟨_, _, _, h⟩ := BuildM.bind_eq_ok.mp h
        obtain ⟨_, _, hfail, _⟩ := BuildM.bind_eq_ok.mp h
        exact absurd hfail fail_ne_ok
    | markup =>
      rw [hc] at h
      dsimp only at h
      split at h
      · obtain ⟨_, b₁, htext, h⟩ := BuildM.bind_eq_ok.mp h
        cases h
        exact hadd (by simp [hc]) htext
      · cases h
        exact .refl

-- The attributes that are kept so far.
def Declared.kept (d : Declared) : List Attribute := d.namespaces ++ d.plain

theorem mem_of_declareOne {d d' : Declared} {a : Attribute} {mark : Mark}
    (h : declareOne mark d a b = .ok d' b') : ∀ a' ∈ d'.kept, a' ∈ d.kept ∨ a' = a := by
  have hsame : ∀ {d' : Declared}, d'.kept = d.kept → ∀ a' ∈ d'.kept, a' ∈ d.kept ∨ a' = a :=
    fun heq a' ha' => .inl (heq ▸ ha')
  have hspaces : ∀ a' ∈ d.namespaces ++ [a] ++ d.plain, a' ∈ d.kept ∨ a' = a := fun a' ha' => by
    simp only [Declared.kept, List.mem_append, List.mem_singleton] at ha' ⊢
    tauto
  have hplain : ∀ a' ∈ d.namespaces ++ (d.plain ++ [a]), a' ∈ d.kept ∨ a' = a := fun a' ha' => by
    simp only [Declared.kept, List.mem_append, List.mem_singleton] at ha' ⊢
    tauto
  unfold declareOne at h
  cases hspace : withoutStart? "xmlns:" a.name with
  | none =>
    simp only [hspace] at h
    split at h
    · cases h
      exact hspaces
    · cases h
      exact hplain
  | some space =>
    simp only [hspace] at h
    split at h
    · cases h
      exact hsame rfl
    · cases hdirectory : withoutStart? directoryUrn a.value with
      | some directory =>
        simp only [hdirectory] at h
        obtain ⟨_, _, -, h⟩ := BuildM.bind_eq_ok.mp h
        cases h
        exact hsame rfl
      | none =>
        simp only [hdirectory] at h
        obtain ⟨_, _, -, h⟩ := BuildM.bind_eq_ok.mp h
        split at h
        · cases h
          exact hsame rfl
        · cases h
          exact hspaces

theorem mem_of_foldlM_declareOne {attrs : List Attribute} {d d' : Declared} {mark : Mark}
    (h : attrs.foldlM (declareOne mark) d b = .ok d' b') :
    ∀ a ∈ d'.kept, a ∈ d.kept ∨ a ∈ attrs := by
  induction attrs generalizing d b with
  | nil =>
    cases h
    exact fun a ha => .inl ha
  | cons a attrs ih =>
    rw [List.foldlM_cons] at h
    obtain ⟨d₁, b₁, hfirst, h⟩ := BuildM.bind_eq_ok.mp h
    intro a' ha'
    rcases ih h a' ha' with ha' | ha'
    · refine (mem_of_declareOne hfirst a' ha').imp_right ?_
      rintro rfl
      exact List.mem_cons_self ..
    · exact .inr (List.mem_cons_of_mem _ ha')

-- What is kept of the attributes of an element is among them.
theorem mem_of_declare {standard : List String} {attrs : List Attribute} {mark : Mark}
    {declared : Declared} (h : declare standard attrs mark b = .ok declared b') :
    ∀ a ∈ declared.kept, a ∈ attrs :=
  fun a ha => (mem_of_foldlM_declareOne h a ha).resolve_left (by simp [Declared.kept])

theorem startStandard_stages (hx : x.Reads units data) {parent id : Nat} {name : String}
    {attrs : List Attribute} {mark : Mark} {hasBody : Bool} {content : Content}
    (h : startStandard x parent name attrs mark hasBody b = .ok (id, content) b')
    (hmark : mark.unit = data.unit)
    (hattrs : ∀ a ∈ attrs, a.mark.unit = data.unit ∧ ∃ raw t, t <:+ x.text ∧ a.WrittenAs raw t) :
    Stages units b b' := by
  unfold startStandard at h
  cases hname : withoutStart? "directive." name with
  | some directive =>
    rw [hname] at h
    obtain ⟨_, _, hadd, h⟩ := BuildM.bind_eq_ok.mp h
    cases h
    exact addDirective_stages hx.includes hx.known (holds_of_strict hx.form_eq) hmark hattrs hadd
  | none =>
    rw [hname] at h
    cases hkind : scriptKind? name with
    | some kind =>
      simp only [hkind] at h
      cases attrs with
      | cons a rest => exact absurd h fail_ne_ok
      | nil =>
        obtain ⟨_, _, hadd, h⟩ := BuildM.bind_eq_ok.mp h
        cases h
        exact addScript_stages hx.known (holds_of_strict hx.form_eq) hmark hadd
    | none =>
      simp only [hkind] at h
      obtain ⟨_, _, hstart, h⟩ := BuildM.bind_eq_ok.mp h
      cases h
      exact (startAction_stages hx.known (holds_of_strict hx.form_eq) hmark hstart).1

theorem startNode_stages (hx : x.Reads units data) {name : String} {declared : Declared}
    {hasBody : Bool} {id : NodeId} {content : Content}
    (h : startNode x s name declared (x.markAt offset) hasBody b = .ok (id, content) b')
    (hattrs : ∀ a ∈ declared.plain,
      a.mark.unit = data.unit ∧ ∃ raw t, t <:+ x.text ∧ a.WrittenAs raw t) :
    Stages units b b' := by
  unfold startNode at h
  dsimp only at h
  obtain ⟨_, _, hget, h⟩ := BuildM.bind_eq_ok.mp h
  cases hget
  split at h
  · exact startStandard_stages hx h (hx.unit_markAt offset) hattrs
  · split at h
    · obtain ⟨_, _, hstart, h⟩ := BuildM.bind_eq_ok.mp h
      obtain ⟨_, _, hget, h⟩ := BuildM.bind_eq_ok.mp h
      cases hget
      cases h
      exact (startAction_stages hx.known (holds_of_strict hx.form_eq) (hx.unit_markAt offset)
        hstart).1
    · obtain ⟨_, _, hadd, h⟩ := BuildM.bind_eq_ok.mp h
      cases h
      exact append_stages hx.known (holds_of_strict hx.form_eq) (hx.unit_markAt offset) hadd rfl rfl
        (by simp) (by simp)

theorem enterBody_stages {name : String} {mark : Mark} {hasBody : Bool} {id : NodeId}
    {content : Content} (h : enterBody s name mark hasBody id content b = .ok s' b') :
    Stages units b b' ∧ s'.pending = s.pending := by
  unfold enterBody at h
  split at h
  · obtain ⟨_, _, hopen, h⟩ := BuildM.bind_eq_ok.mp h
    cases h
    exact ⟨(quietly_openBody _ hopen).stages, rfl⟩
  · obtain ⟨_, _, hclose, h⟩ := BuildM.bind_eq_ok.mp h
    cases h
    exact ⟨(quietly_close _ _ hclose).stages, rfl⟩

theorem startElement_stages (hx : x.Reads units data) {inside behind : List Char}
    {hasBody : Bool} (h : startElement x s inside offset hasBody b = .ok s' b')
    (hinside : inside ++ behind <:+ x.text) : Stages units b b' ∧ s'.pending = s.pending := by
  rw [startElement_eq] at h
  obtain ⟨attrs, b₁, hread, h⟩ := BuildM.bind_eq_ok.mp h
  obtain ⟨declared, b₂, hdeclare, h⟩ := BuildM.bind_eq_ok.mp h
  obtain ⟨⟨id, content⟩, b₃, hnode, hbody⟩ := BuildM.bind_eq_ok.mp h
  obtain ⟨rfl, hwritten⟩ := readAttributes_eq_ok hread
  have hattrs : ∀ a ∈ declared.plain,
      a.mark.unit = data.unit ∧ ∃ raw t, t <:+ x.text ∧ a.WrittenAs raw t := fun a ha => by
    obtain ⟨hmark, raw, t, ⟨front, rfl⟩, hraw⟩ :=
      hwritten a (mem_of_declare hdeclare a (List.mem_append_right _ ha))
    have hsuffix : t ++ behind <:+ front ++ t ++ behind := ⟨front, (List.append_assoc ..).symm⟩
    exact ⟨by rw [hmark, hx.unit_markAt], raw, _, hsuffix.trans hinside, hraw.append behind⟩
  obtain ⟨hb, hpending⟩ : Stages units b₃ b' ∧ _ := enterBody_stages hbody
  exact ⟨(stilly_declare _ _ _ hdeclare).stages.trans ((startNode_stages hx hnode hattrs).trans hb),
    hpending⟩

theorem endElement_stages {name : String} (h : endElement x s name offset b = .ok s' b') :
    Stages units b b' ∧ s'.pending = s.pending := by
  unfold endElement at h
  cases hframes : s.frames with
  | nil =>
    rw [hframes] at h
    exact absurd h fail_ne_ok
  | cons frame rest =>
    rw [hframes] at h
    dsimp only at h
    split at h
    · obtain ⟨_, _, hclose, h⟩ := BuildM.bind_eq_ok.mp h
      cases h
      exact ⟨(quietly_close _ _ hclose).stages, rfl⟩
    · exact absurd h fail_ne_ok

-- Behind a tag or a comment, when what was pending in front of it has been made into nodes.
theorem State.Reaches.behind (hx : x.Reads units data) {piece : List Char} {s₁ : State}
    {b₁ : Builder} (hs : s.Reaches x offset (piece ++ rest))
    (hbegins : Begins x.text (offset + byteSize piece)) (hflush : flush x s b = .ok s₁ b₁)
    (hb : Stages units b₁ b') (hpending : s'.pending = s₁.pending) :
    Stages units b b' ∧ s'.Reaches x (offset + byteSize piece) rest := by
  rw [flush_state hflush] at hpending
  exact ⟨(flush_stages hx hflush hs).trans hb, hs.at_rest.skip.reaches hbegins hpending⟩

-- One event, which is written at the front of the rest of the document.
theorem readMarkup_stages (hx : x.Reads units data) {e : Located} {piece : List Char}
    (h : readMarkup x s e b = .ok s' b') (he : e ∈ (Markup.read x.text).events)
    (hstart : e.start = offset) (hstop : e.stop = offset + byteSize piece)
    (hpiece : e.event.WrittenAs piece) (hs : s.Reaches x offset (piece ++ rest))
    (hcontent : (∃ depth, s.content = .verbatim depth) → ∃ name, e.event = .closing name) :
    Stages units b b' ∧ s'.Reaches x (offset + byteSize piece) rest := by
  have hbegins : e.event.Ends → Begins x.text (offset + byteSize piece) :=
    fun hends => .inr ⟨e, he, hends, hstop⟩
  have hgathers : (∀ name, e.event ≠ .closing name) → s.Gathers x offset (piece ++ rest) :=
    fun hne => hs.gathers.resolve_left fun hverbatim => by
      obtain ⟨name, hname⟩ := hcontent hverbatim
      exact hne name hname
  have hinside : ∀ {inside behind : List Char}, piece = '<' :: (inside ++ behind) →
      inside ++ (behind ++ rest) <:+ x.text := by
    rintro inside behind rfl
    refine List.IsSuffix.trans ⟨['<'], ?_⟩ hs.at_rest.suffix
    simp
  unfold readMarkup at h
  cases hevent : e.event with
  | opening inside | empty inside =>
    rw [hevent] at h hpiece hbegins
    obtain ⟨s₁, b₁, hflush, h⟩ := BuildM.bind_eq_ok.mp h
    obtain ⟨hb, hpending⟩ := startElement_stages hx h (hinside hpiece)
    exact hs.behind hx (hbegins trivial) hflush hb hpending
  | closing name =>
    rw [hevent] at h hbegins
    obtain ⟨s₁, b₁, hflush, h⟩ := BuildM.bind_eq_ok.mp h
    obtain ⟨hb, hpending⟩ : Stages units b₁ b' ∧ _ := endElement_stages h
    exact hs.behind hx (hbegins trivial) hflush hb hpending
  | text raw =>
    have hs' := hgathers (by simp [hevent])
    rw [hevent] at h hpiece
    obtain ⟨rfl, hopen⟩ := hpiece
    cases htext : Markup.unescape? piece with
    | none =>
      simp only [htext] at h
      exact absurd h fail_ne_ok
    | some text =>
      simp only [htext] at h
      cases h
      rw [hstart]
      have hpushed := @State.Gathers.push _ _ _ _ [] _ _ hs' fun hd => hd.unescape htext hopen
      exact ⟨.refl, hpushed.reaches⟩
  | cdata text =>
    have hs' := hgathers (by simp [hevent])
    rw [hevent] at h hpiece
    cases h
    obtain ⟨rfl, hend⟩ := hpiece
    rw [hstart]
    exact ⟨.refl, (hs'.push fun hd => hd.cdata hend).reaches⟩
  | comment text =>
    rw [hevent] at h hbegins
    obtain ⟨s₁, b₁, hflush, h⟩ := BuildM.bind_eq_ok.mp h
    obtain ⟨_, b₂, hadd, h⟩ := BuildM.bind_eq_ok.mp h
    cases h
    have hb : Stages units b₁ b' :=
      addComment_stages hx.known (holds_of_strict hx.form_eq) (hx.unit_markAt _) hadd
    exact hs.behind hx (hbegins trivial) hflush hb rfl
  | other =>
    have hs' := hgathers (by simp [hevent])
    rw [hevent] at h hpiece
    cases h
    obtain ⟨inside, more, rfl, hother⟩ := hpiece
    exact ⟨.refl, (hs'.pass hother).reaches⟩

theorem content_setContent {depth depth' : Nat} (h : s.content = .verbatim depth) :
    (s.setContent (.verbatim depth')).content = .verbatim depth' := by
  unfold State.content at h ⊢
  unfold State.setContent
  cases hframes : s.frames with
  | nil =>
    rw [hframes] at h
    cases h
  | cons frame frames => rfl

theorem readEvent_stages (hx : x.Reads units data) {e : Located} {piece : List Char}
    (h : readEvent x s e b = .ok s' b') (he : e ∈ (Markup.read x.text).events)
    (hstart : e.start = offset) (hstop : e.stop = offset + byteSize piece)
    (hpiece : e.event.WrittenAs piece) (hs : s.Reaches x offset (piece ++ rest)) :
    Stages units b b' ∧ s'.Reaches x (offset + byteSize piece) rest := by
  rcases readEvent_eq_ok h with ⟨depth, depth', kept, hc, hdepth, -, rfl, rfl⟩ | ⟨hcloses, h⟩
  · exact ⟨.refl, hs.at_rest.skip, .inl ⟨depth', content_setContent hc⟩⟩
  · refine readMarkup_stages hx h he hstart hstop hpiece hs fun ⟨depth, hc⟩ => ?_
    have hdepth := hcloses depth hc
    cases hevent : e.event with
    | closing name => exact ⟨name, rfl⟩
    | opening | empty | text | cdata | comment | other =>
      rw [hevent] at hdepth
      cases hdepth

-- By induction on the events, which cover the document.
theorem foldlM_stages (hx : x.Reads units data) {events : List Located}
    (htiles : Tiles offset rest events) (hevents : ∀ e ∈ events, e ∈ (Markup.read x.text).events)
    (h : events.foldlM (readEvent x) s b = .ok s' b')
    (hs : s.Reaches x offset rest) :
    Stages units b b' ∧ ∃ offset' rest', s'.Reaches x offset' rest' := by
  induction htiles generalizing s b with
  | nil offset rest =>
    cases h
    exact ⟨.refl, offset, rest, hs⟩
  | @cons offset piece rest e events hstart hstop hpiece htiles ih =>
    rw [List.foldlM_cons] at h
    obtain ⟨s₁, b₁, hevent, h⟩ := BuildM.bind_eq_ok.mp h
    obtain ⟨he, hrest⟩ := List.forall_mem_cons.mp hevents
    obtain ⟨hb₁, hs₁⟩ := readEvent_stages hx hevent he hstart hstop hpiece hs
    rw [← hstop] at hs₁
    obtain ⟨hb, hend⟩ := ih hrest h hs₁
    exact ⟨hb₁.trans hb, hend⟩

theorem readDocument_stages (hx : x.Reads units data) {u : Unit}
    (h : readDocument x (Markup.read x.text) b = .ok u b') : Stages units b b' := by
  obtain ⟨skipped, rest, htext, htiles, hskipped⟩ := Markup.tiles_read x.text
  have hat : x.At 0 rest := ⟨skipped, [], hskipped, by simpa using htext, rfl⟩
  obtain ⟨-, s₁, b₁, s₂, hevents, hflush, -⟩ := readDocument_eq_ok h
  obtain ⟨hb₁, offset, rest', hs₁⟩ := foldlM_stages hx htiles (fun _ he => he) hevents
    (hat.reaches (.inl rfl) rfl)
  exact hb₁.trans (flush_stages hx hflush hs₁)

end Strict
end PageCompiler
