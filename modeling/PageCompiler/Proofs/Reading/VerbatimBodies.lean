import PageCompiler.Proofs.Reading.DocumentStages
import PageCompiler.Proofs.Reading.VerbatimSteps

namespace PageCompiler

open Text

namespace Strict

open Builder
open Markup (Event Located LeavesOpen Covers)

variable {docs : Documents} {x : Context} {b b' : Builder} {s s' : State} {t u : Tree}
  {before behind : List Located} {e : Located}

-- A document that is being read, whose events follow one another.
structure Context.Tells (x : Context) (docs : Documents) : Prop where
  includes : IncludesSparing docs x.includeUnit
  document : ∀ text, docs x.unit text →
    text = x.text ∧ Covers 0 x.text (Markup.read x.text).events

theorem touches_flush {held : Option NodeId} (x : Context) (s : State) :
    Relates (Touches docs held (s.parent x)) (flush x s) := by
  unfold flush
  with_reducible repeat' first
    | exact .pure _
    | exact .get
    | exact .fail _ _
    | exact touches_addText _ _
    | exact touches_addVerbatim _ _
    | refine .bind ?_ fun _ => ?_
    | split
    | dsimp only

theorem touches_close {held : Option NodeId} (id : NodeId) (content : Content) :
    Relates (Touches docs held id) (close id content) := by
  unfold close
  refine .bind .get fun b => ?_
  split
  · exact .pure _
  · exact touches_finishElement id

-- The root and the open elements may be given nodes, but for an innermost one whose body is left as
-- it is.
structure State.Sound (s : State) (docs : Documents) (x : Context) (t : Tree) : Prop where
  root : t.Free docs none x.root
  frames : ∀ frame ∈ s.frames, (∀ depth, frame.content ≠ .verbatim depth) →
    t.Free docs none frame.id
  outer : ∀ frame ∈ s.frames.tail, ∀ depth, frame.content ≠ .verbatim depth

-- The innermost element's body is left as it is: everything behind its tag is gathered.
structure State.Fills (s : State) (docs : Documents) (x : Context) (before : List Located)
    (t : Tree) (frame : Frame) (depth : Nat) : Prop where
  head : s.frames.head? = some frame
  content : frame.content = .verbatim depth
  bodies : t.BodiesKept docs (some frame.id)
  lt_size : frame.id < t.size
  takes : (t.node frame.id).TakesVerbatim
  name : (t.node frame.id).name = frame.name
  body : (t.node frame.id).body = some []
  events : ∃ (outside inner : List Located) (tag : Located) (inside : List Char),
    before = outside ++ tag :: inner ∧ tag.event = .opening inside ∧
    t.mark frame.id = x.markAt tag.start ∧
    frame.name = String.ofList (Markup.StartTag.name inside) ∧
    LeavesOpen depth (inner.map Located.event) ∧
    s.pending.reverse = inner.flatMap (Located.piece x.text)

-- Where reading stands behind the given events.
structure State.Stands (s : State) (docs : Documents) (x : Context) (before : List Located)
    (t : Tree) : Prop where
  sound : s.Sound docs x t
  phase : (∀ depth, s.content ≠ .verbatim depth) ∧ t.BodiesKept docs none ∨
    ∃ frame depth, s.Fills docs x before t frame depth

theorem State.Sound.advance (h : s.Sound docs x t) (he : t.Extends u) : s.Sound docs x u :=
  ⟨h.root.of_extends he, fun frame hframe hcontent => (h.frames frame hframe hcontent).of_extends he,
    h.outer⟩

theorem State.Sound.of_frames (h : s.Sound docs x t) (hframes : s'.frames = s.frames) :
    s'.Sound docs x t := ⟨h.root, hframes ▸ h.frames, hframes ▸ h.outer⟩

theorem State.Sound.push (h : s.Sound docs x t) (text : List Char) (start : Nat) :
    (s.push text start).Sound docs x t := h.of_frames rfl

-- Away from such a body no open element has one.
theorem State.Sound.plain (h : s.Sound docs x t) (hcontent : ∀ depth, s.content ≠ .verbatim depth) :
    ∀ frame ∈ s.frames, ∀ depth, frame.content ≠ .verbatim depth := by
  intro frame hframe
  cases hframes : s.frames with
  | nil =>
    rw [hframes] at hframe
    cases hframe
  | cons first rest =>
    rw [hframes] at hframe
    rcases List.mem_cons.mp hframe with rfl | hmem
    · simpa [State.content, hframes] using hcontent
    · exact h.outer frame (by rw [hframes]; exact hmem)

theorem State.Sound.parent (h : s.Sound docs x t)
    (hcontent : ∀ depth, s.content ≠ .verbatim depth) : t.Free docs none (s.parent x) := by
  have hplain := h.plain hcontent
  unfold State.parent
  cases hframes : s.frames with
  | nil => exact h.root
  | cons frame rest =>
    have hmem : frame ∈ s.frames := by
      rw [hframes]
      exact List.mem_cons_self ..
    exact h.frames frame hmem (hplain frame hmem)

-- The innermost element is closed.
theorem State.Sound.tail (h : s.Sound docs x t)
    (hframes : s'.frames = s.frames.tail) : s'.Sound docs x t := by
  refine ⟨h.root, fun frame hframe => h.frames frame (List.mem_of_mem_tail (hframes ▸ hframe)),
    fun frame hframe => h.outer frame (List.mem_of_mem_tail (hframes ▸ hframe))⟩

-- An element is opened.
theorem State.Sound.enter (h : s.Sound docs x t)
    (hcontent : ∀ depth, s.content ≠ .verbatim depth) (standard : List String) (frame : Frame)
    (hframe : (∀ depth, frame.content ≠ .verbatim depth) → t.Free docs none frame.id) :
    State.Sound { s with standard, frames := frame :: s.frames } docs x t :=
  ⟨h.root, List.forall_mem_cons.mpr ⟨hframe, h.frames⟩, h.plain hcontent⟩

theorem content_ne_of_frames (h : ∀ frame ∈ s.frames, ∀ depth, frame.content ≠ .verbatim depth) :
    ∀ depth, s.content ≠ .verbatim depth := by
  unfold State.content
  cases hframes : s.frames with
  | nil => exact fun _ => nofun
  | cons frame rest => exact h frame (by rw [hframes]; exact List.mem_cons_self ..)

theorem State.Sound.stands (h : s.Sound docs x t)
    (hcontent : ∀ depth, s.content ≠ .verbatim depth) (ht : t.BodiesKept docs none) :
    s.Stands docs x before t := ⟨h, .inl ⟨hcontent, ht⟩⟩

-- What an element comes to: its body is left as it is exactly when its content says so.
inductive Starts (docs : Documents) (x : Context) (offset : Nat) (name : String) (b : Builder)
    (id : NodeId) (content : Content) (b' : Builder) : Prop
  | plain (hopens : Opens docs b id b') (hnot : ¬(b'.tree.node id).TakesVerbatim)
      (hcontent : ∀ depth, content ≠ .verbatim depth)
  | verbatim (hopens : Opens docs b id b') (htakes : (b'.tree.node id).TakesVerbatim)
      (hcontent : content = .verbatim 0) (hmark : b'.tree.mark id = x.markAt offset)
      (hname : (b'.tree.node id).name = name) (hbody : (b'.tree.node id).body = none)

theorem Starts.of_spares {offset : Nat} {name : String} {id : NodeId} {content : Content}
    {b₁ : Builder} (h : Starts docs x offset name b₁ id content b')
    (hb : b.tree.Spares docs none b₁.tree) : Starts docs x offset name b id content b' := by
  have hopens : Opens docs b₁ id b' → Opens docs b id b' := fun hopens =>
    ⟨hb.grown.trans hopens.grown, fun ht => hopens.bodies (hb.bodies ht), hopens.lt_size⟩
  cases h with
  | plain h hnot hcontent => exact .plain (hopens h) hnot hcontent
  | verbatim h htakes hcontent hmark hname hbody =>
    exact .verbatim (hopens h) htakes hcontent hmark hname hbody

-- The prefix of the standard actions is cut off in front of the name.
theorem cutString?_standard (name : String) :
    cutString? ':' (standardSpace ++ ":" ++ name) = some (standardSpace, name) := by
  rw [cutString?, String.toList_append, String.toList_append]
  show some (String.ofList standardSpace.toList, String.ofList name.toList) = _
  rw [String.ofList_toList, String.ofList_toList]

theorem custom?_of_startAction {parent id : Nat} {name : String} {attrs : List Attribute}
    {mark : Mark} {form : UnitForm}
    (h : startAction parent (standardSpace ++ ":" ++ name) attrs mark form b = .ok id b') :
    (b'.tree.node id).kind.custom? = none := by
  unfold startAction at h
  rw [cutString?_standard] at h
  obtain ⟨_, b₁, -, h⟩ := BuildM.bind_eq_ok.mp h
  dsimp only [Option.getD_some] at h
  rw [if_pos rfl] at h
  obtain ⟨kind, b₂, hkind, h⟩ := BuildM.bind_eq_ok.mp h
  rw [(node_of_append h).2]
  exact (standardKind_spec hkind).2

theorem startStandard_starts (hx : x.Tells docs) {parent id offset : Nat} {name element : String}
    {attrs : List Attribute} {mark : Mark} {hasBody : Bool} {content : Content}
    (h : startStandard x parent name attrs mark hasBody b = .ok (id, content) b')
    (hp : b.tree.Free docs none parent) : Starts docs x offset element b id content b' := by
  unfold startStandard at h
  cases hname : withoutStart? "directive." name with
  | some directive =>
    rw [hname] at h
    obtain ⟨_, _, hadd, h⟩ := BuildM.bind_eq_ok.mp h
    cases h
    obtain ⟨hb, hid, hcustom⟩ := addDirective_spares hx.includes hadd hp
    exact .plain (.of_spares hb hid) (Node.not_takesVerbatim hcustom) fun _ => nofun
  | none =>
    rw [hname] at h
    cases hkind : scriptKind? name with
    | some kind =>
      simp only [hkind] at h
      cases attrs with
      | cons a rest => exact absurd h fail_ne_ok
      | nil =>
        obtain ⟨_, _, hadd, h⟩ := BuildM.bind_eq_ok.mp h
        cases h
        obtain ⟨hb, hid, hcustom⟩ := addScript_spares hadd hp
        exact .plain (.of_spares hb hid) (Node.not_takesVerbatim hcustom) fun _ => nofun
    | none =>
      simp only [hkind] at h
      obtain ⟨_, _, hstart, h⟩ := BuildM.bind_eq_ok.mp h
      cases h
      refine .plain (startAction_opens hstart hp).1
        (Node.not_takesVerbatim (custom?_of_startAction hstart)) fun depth => ?_
      split <;> nofun

theorem startNode_starts (hx : x.Tells docs) {name : String} {declared : Declared} {offset : Nat}
    {hasBody : Bool} {id : NodeId} {content : Content}
    (h : startNode x s name declared (x.markAt offset) hasBody b = .ok (id, content) b')
    (hp : b.tree.Free docs none (s.parent x)) : Starts docs x offset name b id content b' := by
  unfold startNode at h
  dsimp only at h
  obtain ⟨_, _, hget, h⟩ := BuildM.bind_eq_ok.mp h
  cases hget
  split at h
  · exact startStandard_starts hx h hp
  · split at h
    · obtain ⟨_, _, hstart, h⟩ := BuildM.bind_eq_ok.mp h
      obtain ⟨_, _, hget, h⟩ := BuildM.bind_eq_ok.mp h
      cases hget
      cases h
      obtain ⟨hopens, kind, hnode⟩ := startAction_opens hstart hp
      by_cases htakes : (b'.tree.node id).TakesVerbatim
      · have hcontent : bodyContent? b'.tree id = some .verbatim := htakes
        refine .verbatim hopens htakes (by rw [hcontent]; rfl) ?_ ?_ ?_
        · rw [Tree.mark, hnode]
        · rw [hnode]
        · rw [hnode]
      · have hcontent : (bodyContent? b'.tree id == some .verbatim) = false :=
          beq_eq_false_iff_ne.mpr htakes
        refine .plain hopens htakes fun depth => ?_
        simp [hcontent]
    · obtain ⟨_, _, hadd, h⟩ := BuildM.bind_eq_ok.mp h
      cases h
      have hchildren : Node.children { kind := .uninterpreted, mark := x.markAt offset, name
                                       attributes := declared.namespaces ++ declared.plain
                                       body := if hasBody then some [] else none } = [] := by
        cases hasBody <;> rfl
      obtain ⟨hb, hid, hcustom⟩ := append_spares hadd hp hchildren rfl
      exact .plain (.of_spares hb hid) (Node.not_takesVerbatim hcustom) (by simp)

-- Its node is made before its body is opened or closed.
theorem startElement_starts (hx : x.Tells docs) {inside : List Char} {offset : Nat}
    {hasBody : Bool} (h : startElement x s inside offset hasBody b = .ok s' b')
    (hp : b.tree.Free docs none (s.parent x)) :
    ∃ standard id content b₁,
      Starts docs x offset (String.ofList (Markup.StartTag.name inside)) b id content b₁ ∧
      enterBody { s with standard } (String.ofList (Markup.StartTag.name inside)) (x.markAt offset)
        hasBody id content b₁ = .ok s' b' := by
  rw [startElement_eq] at h
  obtain ⟨attrs, b₁, hattrs, h⟩ := BuildM.bind_eq_ok.mp h
  obtain ⟨declared, b₂, hdeclare, h⟩ := BuildM.bind_eq_ok.mp h
  obtain ⟨⟨id, content⟩, b₃, hnode, h⟩ := BuildM.bind_eq_ok.mp h
  have hstill := (stilly_readAttributes _ _ hattrs).trans (stilly_declare _ _ _ hdeclare)
  have hb₂ : b.tree.Spares docs none b₂.tree := hstill.spares
  have hparent : ({ s with standard := declared.standard } : State).parent x = s.parent x := rfl
  have hstarts := startNode_starts hx hnode (hparent ▸ hb₂.free hp)
  exact ⟨declared.standard, id, content, b₃, hstarts.of_spares hb₂, h⟩

-- The tag that opens an element.
theorem startElement_stands (hx : x.Tells docs) {inside : List Char}
    (h : startElement x s inside e.start true b = .ok s' b') (hevent : e.event = .opening inside)
    (hs : s.Sound docs x b.tree) (hcontent : ∀ depth, s.content ≠ .verbatim depth)
    (hpending : s.pending = []) (hb : b.tree.BodiesKept docs none) :
    s'.Stands docs x (before ++ [e]) b'.tree := by
  obtain ⟨standard, id, content, b₁, hstarts, henter⟩ :=
    startElement_starts hx h (hs.parent hcontent)
  unfold enterBody at henter
  rw [if_pos rfl] at henter
  obtain ⟨_, _, hopen, henter⟩ := BuildM.bind_eq_ok.mp henter
  cases hopen
  cases henter
  cases hstarts with
  | plain hopens hnot hne =>
    have hopened := hopens.openBody
    have hnot' : ¬((b₁.tree.openBody id).node id).TakesVerbatim := by
      rw [Tree.node_openBody hopens.lt_size]
      exact hnot
    refine ((hs.advance hopened.grown).enter hcontent _ _ fun _ => ?_).stands hne
      ((hopened.bodies hb).release fun htakes => absurd htakes hnot')
    exact ⟨hopened.lt_size, .inr fun htakes => absurd htakes hnot'⟩
  | verbatim hopens htakes hverbatim hmark hname hbody =>
    have hopened := hopens.openBody
    have hnode := Tree.node_openBody hopens.lt_size
    refine ⟨(hs.advance hopened.grown).enter hcontent _ _ fun hne => absurd hverbatim (hne 0),
      .inr ⟨_, 0, rfl, hverbatim, hopened.bodies hb, hopened.lt_size, ?_, ?_, ?_, before, [], e,
        inside, rfl, hevent, ?_, rfl, .balanced .nil, ?_⟩⟩
    · rw [hnode]
      exact htakes
    · rw [hnode]
      exact hname
    · rw [hnode, Tree.children, Node.children, hbody]
      rfl
    · rw [Tree.mark, hnode]
      exact hmark
    · rw [hpending]
      rfl

-- When an element whose body is left as it is closes, there is nothing left to do.
theorem close_verbatim {id : NodeId} {content : Content} {v : Unit}
    (h : close id content b = .ok v b') (htakes : (b.tree.node id).TakesVerbatim)
    (hnamed : ∀ c ∈ b.tree.children id, (b.tree.kind c).isNamed = false) : b' = b := by
  unfold close at h
  obtain ⟨_, _, hget, h⟩ := BuildM.bind_eq_ok.mp h
  cases hget
  split at h
  · cases h
    rfl
  · exact finishElement_eq htakes.isNamed hnamed h

-- An element that is an empty tag.
theorem startElement_empty (hx : x.Tells docs) {inside : List Char}
    (h : startElement x s inside e.start false b = .ok s' b') (hevent : e.event = .empty inside)
    (hevents : (Markup.read x.text).events = before ++ e :: behind)
    (hs : s.Sound docs x b.tree) (hcontent : ∀ depth, s.content ≠ .verbatim depth)
    (hb : b.tree.BodiesKept docs none) : s'.Stands docs x (before ++ [e]) b'.tree := by
  obtain ⟨standard, id, content, b₁, hstarts, henter⟩ :=
    startElement_starts hx h (hs.parent hcontent)
  unfold enterBody at henter
  rw [if_neg (by decide)] at henter
  obtain ⟨_, _, hclose, henter⟩ := BuildM.bind_eq_ok.mp henter
  cases henter
  have hclosed : Opens docs b id b₁ → b₁.tree.Spares docs (some id) b'.tree := fun hopens =>
    touches_close id content hclose ⟨hopens.lt_size, .inl rfl⟩
  cases hstarts with
  | plain hopens hnot hne =>
    have hspares := hclosed hopens
    have halike := hspares.grown.node id hopens.lt_size
    have hsound : State.Sound { s with standard } docs x b'.tree :=
      (hs.advance (hopens.grown.trans hspares.grown)).of_frames rfl
    refine hsound.stands hcontent ((hspares.bodies (hopens.bodies hb)).release fun htakes => ?_)
    exact absurd (halike.takesVerbatim_iff.mp htakes) hnot
  | verbatim hopens htakes _ hmark hname hbody =>
    have hchildren : b₁.tree.children id = [] := by
      rw [Tree.children, Node.children, hbody]
      rfl
    obtain rfl : b' = b₁ := close_verbatim hclose htakes (by simp [hchildren])
    have hsound : State.Sound { s with standard } docs x b'.tree :=
      (hs.advance hopens.grown).of_frames rfl
    refine hsound.stands hcontent ((hopens.bodies hb).release fun _ text hdoc => ?_)
    rw [hmark, x.unit_markAt] at hdoc ⊢
    obtain ⟨rfl, -⟩ := hx.document text hdoc
    exact .empty hevents hevent hmark hname hbody

theorem State.Fills.frames_eq {frame : Frame} {depth : Nat}
    (hs : s.Fills docs x before t frame depth) : ∃ rest, s.frames = frame :: rest := by
  have hhead := hs.head
  cases hframes : s.frames with
  | nil =>
    rw [hframes] at hhead
    cases hhead
  | cons first rest =>
    rw [hframes] at hhead
    cases hhead
    exact ⟨rest, rfl⟩

theorem State.Fills.content_eq {frame : Frame} {depth : Nat}
    (hs : s.Fills docs x before t frame depth) : s.content = .verbatim depth := by
  rw [State.content, hs.head]
  exact hs.content

-- What has been gathered becomes one node, unless there is nothing.
theorem flush_fills {frame : Frame} {depth : Nat} (h : flush x s b = .ok s' b')
    (hs : s.Fills docs x before b.tree frame depth) :
    b.tree.Extends b'.tree ∧ b'.tree.BodiesKept docs (some frame.id) ∧
      (b'.tree.node frame.id).body.isSome ∧
      (b'.tree.children frame.id).map b'.tree.kind =
        if s.pending.reverse = [] then [] else [.text (.ofChars s.pending.reverse)] := by
  have hparent : s.parent x = frame.id := by rw [State.parent, hs.head]; rfl
  have hfree : b.tree.Free docs (some frame.id) (s.parent x) := by
    rw [hparent]
    exact ⟨hs.lt_size, .inl rfl⟩
  have hspares := touches_flush x s h hfree
  refine ⟨hspares.grown, hspares.bodies hs.bodies, ?_⟩
  have hchildren : b.tree.children frame.id = [] := by
    rw [Tree.children, Node.children, hs.body]
    rfl
  unfold flush at h
  split at h
  · rename_i hempty
    cases h
    rw [List.isEmpty_iff.mp hempty, hchildren, hs.body]
    exact ⟨rfl, rfl⟩
  · rename_i hempty
    rw [hs.content_eq] at h
    obtain ⟨_, _, hadd, h⟩ := BuildM.bind_eq_ok.mp h
    cases h
    have hne : s.pending.reverse ≠ [] := fun hnil =>
      hempty (List.isEmpty_iff.mpr (List.reverse_eq_nil_iff.mp hnil))
    unfold addVerbatim at hadd
    rw [if_neg (by rwa [List.isEmpty_iff])] at hadd
    obtain ⟨id, happend⟩ := BuildM.discard_eq_ok hadd
    obtain ⟨-, rfl⟩ := append_eq_ok happend
    rw [if_neg hne, Tree.children, Tree.node_append, if_neg hs.lt_size.ne,
      if_pos ⟨hparent.symm, hs.lt_size⟩, hchildren]
    exact ⟨rfl, congrArg (· :: []) Tree.kind_append⟩

-- The tag that closes the body.
theorem readMarkup_closing (hx : x.Tells docs) {frame : Frame} {name : List Char}
    (h : readMarkup x s e b = .ok s' b') (hevent : e.event = .closing name)
    (hevents : (Markup.read x.text).events = before ++ e :: behind)
    (hs : s.Fills docs x before b.tree frame 0) (hsound : s.Sound docs x b.tree) :
    s'.Stands docs x (before ++ [e]) b'.tree := by
  unfold readMarkup at h
  rw [hevent] at h
  obtain ⟨s₁, b₁, hflush, h⟩ := BuildM.bind_eq_ok.mp h
  obtain ⟨hgrown, hbodies, hbody, hchildren⟩ := flush_fills hflush hs
  rw [flush_state hflush] at h
  obtain ⟨rest, hframes⟩ := hs.frames_eq
  unfold endElement at h
  simp only [hframes] at h
  split at h
  · rename_i hname
    obtain ⟨_, _, hclose, h⟩ := BuildM.bind_eq_ok.mp h
    cases h
    have halike := hgrown.node frame.id hs.lt_size
    have htakes := halike.takesVerbatim_iff.mpr hs.takes
    have hnamed : ∀ c ∈ b₁.tree.children frame.id, (b₁.tree.kind c).isNamed = false := by
      intro c hc
      have hmem := List.mem_map_of_mem (f := b₁.tree.kind) hc
      rw [hchildren] at hmem
      split at hmem
      · cases hmem
      · rw [List.mem_singleton.mp hmem]
        rfl
    obtain rfl : b' = b₁ := close_verbatim hclose htakes hnamed
    have hsound' : State.Sound { s with pending := [], frames := rest } docs x b'.tree :=
      (hsound.advance hgrown).tail (by rw [hframes]; rfl)
    refine hsound'.stands (content_ne_of_frames fun f hf => ?_)
      (hbodies.release fun _ text hdoc => ?_)
    · exact hsound.outer f (by rw [hframes]; exact hf)
    · obtain ⟨outside, inner, tag, inside, hbefore, htag, hmark, hopening, hdepth, hpending⟩ :=
        hs.events
      have hplace : b'.tree.mark frame.id = x.markAt tag.start := halike.mark_eq.trans hmark
      rw [hplace, x.unit_markAt] at hdoc ⊢
      obtain ⟨rfl, hcovers⟩ := hx.document text hdoc
      have hall : (Markup.read x.text).events = outside ++ tag :: (inner ++ e :: behind) := by
        rw [hevents, hbefore]
        simp
      rw [hall] at hcovers
      refine .filled hall htag hplace ?_ (hdepth.balanced_of_zero) hevent ?_ hcovers.slice?_between
        hbody ?_
      · rw [halike.name_eq, hs.name, hopening]
      · rw [halike.name_eq, hs.name, hname]
      · rw [hchildren, hpending]
  · exact absurd h fail_ne_ok

-- An event that does not close the body leaves so many elements open.
theorem leavesOpen_of_verbatimDepth? {inner : List Event} {event : Event} {depth depth' : Nat}
    (h : LeavesOpen depth inner) (hdepth : verbatimDepth? depth event = some depth') :
    LeavesOpen depth' (inner ++ [event]) := by
  cases event with
  | opening inside =>
    cases hdepth
    exact h.opened inside
  | closing name =>
    cases depth with
    | zero => cases hdepth
    | succ depth =>
      cases hdepth
      exact h.closed name
  | empty | text | cdata | comment | other =>
    cases hdepth
    exact h.flat trivial

theorem verbatimDepth?_eq_none {depth : Nat} {event : Event}
    (h : verbatimDepth? depth event = none) : depth = 0 ∧ ∃ name, event = .closing name := by
  cases event with
  | closing name =>
    refine ⟨?_, name, rfl⟩
    by_contra hne
    rw [verbatimDepth?, if_neg hne] at h
    cases h
  | opening | empty | text | cdata | comment | other => cases h

-- Any other event is gathered as it is written.
theorem State.Fills.gather {frame : Frame} {depth depth' : Nat}
    (hs : s.Fills docs x before t frame depth) (hsound : s.Sound docs x t)
    (hdepth : verbatimDepth? depth e.event = some depth') {piece : List Char}
    (hpiece : slice? e.start e.stop x.text = some piece) :
    State.Stands ((s.setContent (.verbatim depth')).push piece e.start) docs x
      (before ++ [e]) t := by
  obtain ⟨rest, hframes⟩ := hs.frames_eq
  have hset : s.setContent (.verbatim depth') =
      { s with frames := { frame with content := .verbatim depth' } :: rest } := by
    rw [State.setContent, hframes]
  obtain ⟨outside, inner, tag, inside, rfl, htag, hmark, hopening, hopen, hpending⟩ := hs.events
  rw [hset]
  refine ⟨⟨hsound.root, List.forall_mem_cons.mpr ⟨fun hne => absurd rfl (hne depth'), ?_⟩, ?_⟩,
    .inr ⟨_, depth', rfl, rfl, hs.bodies, hs.lt_size, hs.takes, hs.name, hs.body, outside,
      inner ++ [e], tag, inside, ?_, htag, hmark, hopening, ?_, ?_⟩⟩
  · exact fun f hf => hsound.frames f (by rw [hframes]; exact List.mem_cons_of_mem _ hf)
  · exact fun f hf => hsound.outer f (by rw [hframes]; exact hf)
  · rw [List.append_assoc, List.cons_append]
  · rw [List.map_append]
    exact leavesOpen_of_verbatimDepth? hopen hdepth
  · rw [List.flatMap_append, ← hpending]
    simp [State.push, Located.piece_eq hpiece]

-- The tag that closes an element whose body is not left as it is.
theorem endElement_stands {name : String} {offset : Nat}
    (h : endElement x s name offset b = .ok s' b') (hs : s.Sound docs x b.tree)
    (hcontent : ∀ depth, s.content ≠ .verbatim depth) (hb : b.tree.BodiesKept docs none) :
    s'.Stands docs x before b'.tree := by
  unfold endElement at h
  have hplain := hs.plain hcontent
  cases hframes : s.frames with
  | nil =>
    rw [hframes] at h
    exact absurd h fail_ne_ok
  | cons frame rest =>
    simp only [hframes] at h hplain
    split at h
    · obtain ⟨_, _, hclose, h⟩ := BuildM.bind_eq_ok.mp h
      cases h
      obtain ⟨hfirst, hrest⟩ := List.forall_mem_cons.mp hplain
      have hfree := hs.frames frame (by rw [hframes]; exact List.mem_cons_self ..) hfirst
      have hspares := touches_close _ _ hclose hfree
      have hs' : State.Sound { s with frames := rest } docs x b'.tree :=
        (hs.advance hspares.grown).tail (by rw [hframes]; rfl)
      exact hs'.stands (content_ne_of_frames hrest) (hspares.bodies hb)
    · exact absurd h fail_ne_ok

theorem readMarkup_stands (hx : x.Tells docs) (h : readMarkup x s e b = .ok s' b')
    (hevents : (Markup.read x.text).events = before ++ e :: behind) (hs : s.Sound docs x b.tree)
    (hcontent : ∀ depth, s.content ≠ .verbatim depth) (hb : b.tree.BodiesKept docs none) :
    s'.Stands docs x (before ++ [e]) b'.tree := by
  -- Markup is read when what is pending has been made into nodes.
  have hflush : ∀ {s₁ : State} {b₁ : Builder}, flush x s b = .ok s₁ b₁ →
      s₁ = { s with pending := [] } ∧ State.Sound { s with pending := [] } docs x b₁.tree ∧
        b₁.tree.BodiesKept docs none := fun h =>
    have hspares := touches_flush x s h (hs.parent hcontent)
    ⟨flush_state h, (hs.advance hspares.grown).of_frames rfl, hspares.bodies hb⟩
  unfold readMarkup at h
  cases hevent : e.event with
  | opening inside =>
    rw [hevent] at h
    obtain ⟨s₁, b₁, hfirst, h⟩ := BuildM.bind_eq_ok.mp h
    obtain ⟨rfl, hs₁, hb₁⟩ := hflush hfirst
    exact startElement_stands hx h hevent hs₁ hcontent rfl hb₁
  | empty inside =>
    rw [hevent] at h
    obtain ⟨s₁, b₁, hfirst, h⟩ := BuildM.bind_eq_ok.mp h
    obtain ⟨rfl, hs₁, hb₁⟩ := hflush hfirst
    exact startElement_empty hx h hevent hevents hs₁ hcontent hb₁
  | closing name =>
    rw [hevent] at h
    obtain ⟨s₁, b₁, hfirst, h⟩ := BuildM.bind_eq_ok.mp h
    obtain ⟨rfl, hs₁, hb₁⟩ := hflush hfirst
    exact endElement_stands h hs₁ hcontent hb₁
  | text raw =>
    rw [hevent] at h
    cases htext : Markup.unescape? raw with
    | none =>
      simp only [htext] at h
      exact absurd h fail_ne_ok
    | some text =>
      simp only [htext] at h
      cases h
      exact (hs.push text e.start).stands hcontent hb
  | cdata text =>
    rw [hevent] at h
    cases h
    exact (hs.push text _).stands hcontent hb
  | comment text =>
    rw [hevent] at h
    obtain ⟨s₁, b₁, hfirst, h⟩ := BuildM.bind_eq_ok.mp h
    obtain ⟨rfl, hs₁, hb₁⟩ := hflush hfirst
    obtain ⟨_, b₂, hadd, h⟩ := BuildM.bind_eq_ok.mp h
    cases h
    have hspares := touches_addComment _ _ hadd (hs₁.parent hcontent)
    exact (hs₁.advance hspares.grown).stands hcontent (hspares.bodies hb₁)
  | other =>
    rw [hevent] at h
    cases h
    exact hs.stands hcontent hb

theorem readEvent_stands (hx : x.Tells docs) (h : readEvent x s e b = .ok s' b')
    (hevents : (Markup.read x.text).events = before ++ e :: behind)
    (hs : s.Stands docs x before b.tree) : s'.Stands docs x (before ++ [e]) b'.tree := by
  obtain ⟨hsound, ⟨hcontent, hb⟩ | ⟨frame, depth, hfills⟩⟩ := hs
  · rcases readEvent_eq_ok h with ⟨depth, _, _, hc, -⟩ | ⟨-, h⟩
    · exact absurd hc (hcontent depth)
    · exact readMarkup_stands hx h hevents hsound hcontent hb
  · rcases readEvent_eq_ok h with ⟨_, depth', piece, hc, hdepth, hpiece, rfl, rfl⟩ | ⟨hcloses, h⟩
    · cases hfills.content_eq.symm.trans hc
      exact hfills.gather hsound hdepth hpiece
    · obtain ⟨rfl, name, hevent⟩ := verbatimDepth?_eq_none (hcloses depth hfills.content_eq)
      exact readMarkup_closing hx h hevent hevents hfills hsound

-- By induction on the events that are left.
theorem foldlM_stands (hx : x.Tells docs) {events : List Located}
    (h : events.foldlM (readEvent x) s b = .ok s' b')
    (hevents : (Markup.read x.text).events = before ++ events)
    (hs : s.Stands docs x before b.tree) :
    s'.Stands docs x (Markup.read x.text).events b'.tree := by
  induction events generalizing before s b with
  | nil =>
    cases h
    rwa [hevents, List.append_nil]
  | cons e events ih =>
    rw [List.foldlM_cons] at h
    obtain ⟨s₁, b₁, hfirst, h⟩ := BuildM.bind_eq_ok.mp h
    exact ih h (by rw [hevents, List.append_assoc]; rfl) (readEvent_stands hx hfirst hevents hs)

-- When a document has been read, no body is open any more.
theorem readDocument_bodiesKept (hx : x.Tells docs) {u : Unit}
    (h : readDocument x (Markup.read x.text) b = .ok u b') (hroot : b.tree.Free docs none x.root)
    (hb : b.tree.BodiesKept docs none) : b'.tree.BodiesKept docs none := by
  obtain ⟨-, s₁, b₁, s₂, hevents, hflush, hframes⟩ := readDocument_eq_ok h
  obtain rfl := flush_state hflush
  have hstart : State.Stands {} docs x [] b.tree :=
    State.Sound.stands ⟨hroot, nofun, nofun⟩ (fun _ => nofun) hb
  obtain ⟨hsound, ⟨hcontent, hb₁⟩ | ⟨frame, depth, hfills⟩⟩ := foldlM_stands hx hevents rfl hstart
  · exact (touches_flush x s₁ hflush (hsound.parent hcontent)).bodies hb₁
  · obtain ⟨rest, hsome⟩ := hfills.frames_eq
    cases hframes.symm.trans hsome

end Strict
end PageCompiler
