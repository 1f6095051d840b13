import PageCompiler.Proofs.Reading.Growth
import PageCompiler.Proofs.Reading.Progress
import PageCompiler.Reading.Strict

namespace PageCompiler

open PageCompiler.Tree

namespace Relaxed

open Builder

variable {includeUnit : Includer} {root : Nat} {b b' : Builder} {s s' : State}

-- A unit is read into its own part of the tree, under marks of its own.
structure State.Placed (s : State) (root : NodeId) (b : Builder) : Prop where
  root : Inside b root
  frames : ∀ frame ∈ s.frames, Inside b frame.id
  cursor : b.units.head? = some s.cursor.mark.unit
  textMark : b.units.head? = some s.textMark.unit

theorem State.Placed.advance (h : s.Placed root b) (ha : Advances b b') : s.Placed root b' where
  root := h.root.advance ha
  frames frame hframe := (h.frames frame hframe).advance ha
  cursor := by rw [ha.units_eq, h.cursor]
  textMark := by rw [ha.units_eq, h.textMark]

theorem State.Placed.parent (h : s.Placed root b) : Inside b (s.parent root) := by
  unfold State.parent
  cases hframes : s.frames with
  | nil => exact h.root
  | cons frame rest => exact h.frames frame (by rw [hframes]; exact List.mem_cons_self ..)

theorem State.Placed.resume {c : Cursor} (h : s.Placed root b) (hc : s.cursor.Leads c) :
    (s.resume c).Placed root b where
  root := h.root
  frames := h.frames
  cursor := by rw [h.cursor, ← hc.unit_eq]; rfl
  textMark := by rw [h.cursor, ← hc.unit_eq]; rfl

theorem flush_advances (h : flush s root b = .ok () b') (hs : s.Placed root b) : Advances b b' :=
  addText_advances h hs.parent hs.textMark

-- An element is closed behind the text that it is filled with.
theorem fill_advances {id : NodeId} {text : List Char} {mark : Mark} {b₂ : Builder}
    (hid : Inside b id) (hmark : b.units.head? = some mark.unit)
    (hfill : addText id text mark { b with tree := b.tree.openBody id } = .ok () b₂ ∨
      bodyContent? (b.tree.openBody id) id = some .verbatim ∧
        addVerbatim id text mark { b with tree := b.tree.openBody id } = .ok () b₂)
    (hfinish : finishElement id b₂ = .ok () b') : Advances b b' := by
  have hopen : Advances b { b with tree := b.tree.openBody id } := ⟨.single (.openBody _ _), rfl⟩
  have hb₂ : Advances { b with tree := b.tree.openBody id } b₂ := by
    rcases hfill with hfill | ⟨-, hfill⟩
    · exact addText_advances hfill (hid.advance hopen) hmark
    · exact addVerbatim_advances hfill (hid.advance hopen) hmark
  exact hopen.trans (hb₂.trans (quietly_finishElement _ hfinish).toAdvances)

theorem Effect.advances (hi : Includes includeUnit) {mark : Mark} {c : Cursor} {kind : Construct}
    (h : Effect includeUnit s (s.parent root) mark c b kind s' b') (hs : s.Placed root b)
    (hmark : b.units.head? = some mark.unit) (hc : s.cursor.Leads c) :
    Advances b b' ∧ s'.Placed root b' := by
  cases h with
  | comment hbehind _ hadd =>
    have hb := addComment_advances hadd hs.parent hmark
    exact ⟨hb, (hs.advance hb).resume (hc.trans hbehind)⟩
  | directive _ hbehind _ hadd =>
    obtain ⟨hb, -⟩ := addDirective_advances hi hadd hs.parent hmark
    exact ⟨hb, (hs.advance hb).resume (hc.trans hbehind)⟩
  | script hbehind _ hadd | scriptElement hbehind _ hadd =>
    obtain ⟨hb, -⟩ := addScript_advances hadd hs.parent hmark
    exact ⟨hb, (hs.advance hb).resume (hc.trans hbehind)⟩
  | empty hbehind hstart hfinish =>
    obtain ⟨hb₁, -⟩ := startAction_advances hstart hs.parent hmark
    have hb := hb₁.trans (quietly_finishElement _ hfinish).toAdvances
    exact ⟨hb, (hs.advance hb).resume (hc.trans hbehind)⟩
  | @filled _ _ _ _ c₁ _ id b₁ b₂ _ hopened hbehind _ hstart hfill hfinish =>
    obtain ⟨hb₁, hid⟩ := startAction_advances hstart hs.parent hmark
    have hmark₁ : b₁.units.head? = some c₁.mark.unit := by
      rw [hb₁.units_eq, hs.cursor, (hc.trans hopened).unit_eq]
    have hb := hb₁.trans (fill_advances hid hmark₁ hfill hfinish)
    exact ⟨hb, (hs.advance hb).resume (hc.trans (hopened.trans hbehind))⟩
  | @opened _ name attrs c' id b₁ scriptless hbehind hstart =>
    obtain ⟨hb₁, hid⟩ := startAction_advances hstart hs.parent hmark
    have hopen : Advances b₁ { b₁ with tree := b₁.tree.openBody id } :=
      ⟨.single (.openBody _ _), rfl⟩
    have hb := hb₁.trans hopen
    have hplaced := (hs.advance hb).resume (hc.trans hbehind)
    refine ⟨hb, hplaced.root, ?_, hplaced.cursor, hplaced.textMark⟩
    exact List.forall_mem_cons.mpr ⟨hid.advance hopen, hplaced.frames⟩

theorem Move.advances (hi : Includes includeUnit) {next : Option State}
    (h : Move includeUnit root s b next b') (hs : s.Placed root b) :
    Advances b b' ∧ ∀ s', next = some s' → s'.Placed root b' := by
  cases h with
  | close hclosing hflush hfinish =>
    have hb := (flush_advances hflush hs).trans (quietly_finishElement _ hfinish).toAdvances
    refine ⟨hb, ?_⟩
    rintro _ ⟨⟩
    obtain ⟨frame, -, hclosing⟩ := Option.bind_eq_some_iff.mp hclosing
    obtain ⟨behind, hbehind, heq⟩ := Option.bind_eq_some_iff.mp hclosing
    cases heq
    have hplaced := (hs.advance hb).resume (Cursor.leads_endTag? hbehind).1
    refine ⟨hplaced.root, ?_, hplaced.cursor, hplaced.textMark⟩
    exact fun frame hframe => hplaced.frames frame (List.mem_of_mem_tail hframe)
  | stop hclosing hend hflush hframes => exact ⟨flush_advances hflush hs, by simp⟩
  | @construct kind behind b₁ _ s' hclosing hrest hkind hflush hread =>
    have hb₁ := flush_advances hflush hs
    have hs₁ := hs.advance hb₁
    obtain ⟨hb, hs'⟩ := (readConstruct_effect hread).advances hi hs₁ hs₁.cursor
      (Cursor.leads_moveTo s.cursor behind)
    refine ⟨hb₁.trans hb, ?_⟩
    rintro _ ⟨⟩
    exact hs'
  | text hclosing hrest hkind hread =>
    obtain ⟨rfl, piece, width, hpiece, rfl⟩ := readText_eq_ok hread
    refine ⟨.refl _, ?_⟩
    rintro _ ⟨⟩
    refine ⟨hs.root, hs.frames, ?_, ?_⟩
    · rw [hs.cursor, (Cursor.leads_skip s.cursor width).unit_eq]
    · dsimp only
      split
      · exact hs.cursor
      · exact hs.textMark

theorem run_advances (hi : Includes includeUnit) {fuel : Nat} {u : Unit}
    (h : run includeUnit root fuel s b = .ok u b') (hs : s.Placed root b) : Advances b b' := by
  induction fuel generalizing s b with
  | zero =>
    cases h
    exact .refl _
  | succ fuel ih =>
    unfold run at h
    obtain ⟨next, b₁, hstep, h⟩ := BuildM.bind_eq_ok.mp h
    obtain ⟨hb₁, hnext⟩ := (step_move hstep).advances hi hs
    cases next with
    | none =>
      cases h
      exact hb₁
    | some s' => exact hb₁.trans (ih h (hnext s' rfl))

-- At the start of a unit there is nothing but its root.
theorem placed_start {unit : String} (text : List Char) (hroot : Inside b root)
    (hunit : b.units.head? = some unit) : (State.start (.ofText unit text)).Placed root b where
  root := hroot
  frames frame hframe := by cases hframe
  cursor := hunit
  textMark := hunit

theorem read_advances (hi : Includes includeUnit) {unit : String} {text : List Char} {u : Unit}
    (h : read includeUnit root unit text b = .ok u b') (hroot : Inside b root)
    (hunit : b.units.head? = some unit) : Advances b b' :=
  run_advances hi h (placed_start text hroot hunit)

end Relaxed

namespace Strict

open Text Builder

theorem stilly_readAttributes (inside : List Char) (mark : Mark) :
    Stilly (readAttributes inside mark) := by
  unfold readAttributes
  split
  · exact .fail _ _
  · exact .pure _

theorem stilly_declareOne (mark : Mark) (d : Declared) (a : Attribute) :
    Stilly (declareOne mark d a) := by
  unfold declareOne
  with_reducible repeat' first
    | exact .pure _
    | exact stilly_bindSpace _ _ _
    | exact stilly_bindNamespace _ _ _
    | refine .bind ?_ fun _ => ?_
    | split

theorem stilly_declare (standard : List String) (attrs : List Attribute) (mark : Mark) :
    Stilly (declare standard attrs mark) :=
  .foldlM (fun d a => stilly_declareOne mark d a) _

theorem quietly_close (id : NodeId) (content : Content) : Quietly (close id content) := by
  unfold close
  refine .bind .get fun b => ?_
  split
  · exact .pure _
  · exact quietly_finishElement id

variable {x : Context} {b b' : Builder} {s s' : State}

theorem Context.unit_markAt (x : Context) (offset : Nat) : (x.markAt offset).unit = x.unit :=
  Mark.unit_ofOffset ..

-- A unit is read into its own part of the tree.
structure State.Placed (s : State) (x : Context) (b : Builder) : Prop where
  root : Inside b x.root
  frames : ∀ frame ∈ s.frames, Inside b frame.id
  unit : b.units.head? = some x.unit

theorem State.Placed.advance (h : s.Placed x b) (ha : Advances b b') : s.Placed x b' where
  root := h.root.advance ha
  frames frame hframe := (h.frames frame hframe).advance ha
  unit := by rw [ha.units_eq, h.unit]

theorem State.Placed.of_frames (h : s.Placed x b) (hs : s'.frames = s.frames) : s'.Placed x b :=
  ⟨h.root, hs ▸ h.frames, h.unit⟩

theorem State.Placed.parent (h : s.Placed x b) : Inside b (s.parent x) := by
  unfold State.parent
  cases hframes : s.frames with
  | nil => exact h.root
  | cons frame rest => exact h.frames frame (by rw [hframes]; exact List.mem_cons_self ..)

theorem State.Placed.mark (h : s.Placed x b) (offset : Nat) :
    b.units.head? = some (x.markAt offset).unit := by
  rw [x.unit_markAt, h.unit]

theorem flush_state (h : flush x s b = .ok s' b') : s' = { s with pending := [] } := by
  unfold flush at h
  split at h
  · rename_i hempty
    have hnil : s.pending = [] := by simpa using hempty
    cases h
    rw [← hnil]
  · -- Whatever the text has become, it is taken.
    cases hc : s.content with
    | code | text | verbatim _ =>
      rw [hc] at h
      obtain ⟨_, _, -, h⟩ := BuildM.bind_eq_ok.mp h
      cases h
      rfl
    | directive =>
      rw [hc] at h
      dsimp only at h
      split at h
      · cases h
        rfl
      · obtain ⟨_, _, -, h⟩ := BuildM.bind_eq_ok.mp h
        obtain ⟨_, _, hfail, -⟩ := BuildM.bind_eq_ok.mp h
        exact absurd hfail fail_ne_ok
    | markup =>
      rw [hc] at h
      dsimp only at h
      split at h
      · obtain ⟨_, _, -, h⟩ := BuildM.bind_eq_ok.mp h
        cases h
        rfl
      · cases h
        rfl

theorem flush_advances (h : flush x s b = .ok s' b') (hs : s.Placed x b) :
    Advances b b' ∧ s'.Placed x b' := by
  have hb : Advances b b' := by
    unfold flush at h
    split at h
    · cases h
      exact .refl _
    · cases hc : s.content with
      | code | verbatim _ =>
        rw [hc] at h
        obtain ⟨_, b₁, hadd, h⟩ := BuildM.bind_eq_ok.mp h
        cases h
        exact addVerbatim_advances hadd hs.parent (hs.mark _)
      | text =>
        rw [hc] at h
        obtain ⟨_, b₁, hadd, h⟩ := BuildM.bind_eq_ok.mp h
        cases h
        exact addText_advances hadd hs.parent (hs.mark _)
      | directive =>
        rw [hc] at h
        dsimp only at h
        split at h
        · cases h
          exact .refl _
        · obtain ⟨_, _, _, h⟩ := BuildM.bind_eq_ok.mp h
          obtain ⟨_, _, hfail, _⟩ := BuildM.bind_eq_ok.mp h
          exact absurd hfail fail_ne_ok
      | markup =>
        rw [hc] at h
        dsimp only at h
        split at h
        · obtain ⟨_, b₁, hadd, h⟩ := BuildM.bind_eq_ok.mp h
          cases h
          exact addText_advances hadd hs.parent (hs.mark _)
        · cases h
          exact .refl _
  refine ⟨hb, (hs.advance hb).of_frames ?_⟩
  rw [flush_state h]

theorem startStandard_advances (hi : Includes x.includeUnit) {parent id : Nat} {name : String}
    {attrs : List Attribute} {mark : Mark} {hasBody : Bool} {content : Content}
    (h : startStandard x parent name attrs mark hasBody b = .ok (id, content) b')
    (hin : Inside b parent) (hmark : b.units.head? = some mark.unit) :
    Advances b b' ∧ Inside b' id := by
  unfold startStandard at h
  cases hname : withoutStart? "directive." name with
  | some directive =>
    rw [hname] at h
    obtain ⟨_, _, hadd, h⟩ := BuildM.bind_eq_ok.mp h
    cases h
    exact addDirective_advances hi hadd hin hmark
  | none =>
    rw [hname] at h
    cases hkind : scriptKind? name with
    | some kind =>
      simp only [hkind] at h
      cases attrs with
      | cons a rest => exact absurd h fail_ne_ok
      | nil =>
        obtain ⟨_, _, hadd, h⟩ := BuildM.bind_eq_ok.mp h
        cases h
        exact addScript_advances hadd hin hmark
    | none =>
      simp only [hkind] at h
      obtain ⟨_, _, hstart, h⟩ := BuildM.bind_eq_ok.mp h
      cases h
      exact startAction_advances hstart hin hmark

-- The node of an element, with what character data means inside of it.
def startNode (x : Context) (s : State) (name : String) (declared : Declared) (mark : Mark)
    (hasBody : Bool) : BuildM (NodeId × Content) := do
  let (space, inner) := (cutString? ':' name).getD ("", name)
  let bindings := (← get).bindings
  if s.standard.contains space then
    startStandard x (s.parent x) inner declared.plain mark hasBody
  else if !space.isEmpty && bindings.isBound space then do
    let id ← startAction (s.parent x) name declared.plain mark .strict
    let verbatim := bodyContent? (← get).tree id == some .verbatim
    pure (id, if verbatim then Content.verbatim 0 else .markup)
  else do
    let id ← append (s.parent x)
      { kind := .uninterpreted, mark, name, attributes := declared.namespaces ++ declared.plain
        body := if hasBody then some [] else none }
    pure (id, Content.markup)

-- An element with a body stays open.
def enterBody (s : State) (name : String) (mark : Mark) (hasBody : Bool) (id : NodeId)
    (content : Content) : BuildM State := do
  if hasBody then
    modifyTree (·.openBody id)
    return { s with frames := ⟨id, name, content, mark⟩ :: s.frames }
  close id content
  return s

theorem startElement_eq (x : Context) (s : State) (inside : List Char) (offset : Nat)
    (hasBody : Bool) :
    startElement x s inside offset hasBody = (do
      let mark := x.markAt offset
      let name := String.ofList (Markup.StartTag.name inside)
      let declared ← declare s.standard (← readAttributes inside mark) mark
      let s := { s with standard := declared.standard }
      let (id, content) ← startNode x s name declared mark hasBody
      enterBody s name mark hasBody id content) := by
  unfold startElement startNode
  dsimp only
  congr 1
  funext attrs
  congr 1
  funext declared
  rw [bind_assoc]
  congr 1
  funext b
  split
  · rfl
  · split
    · simp only [bind_assoc, pure_bind]; rfl
    · simp only [bind_assoc, pure_bind]; rfl

-- An element of any kind has its own node, under which its body is read.
theorem startNode_advances (hi : Includes x.includeUnit) {name : String} {declared : Declared}
    {offset : Nat} {hasBody : Bool} {id : NodeId} {content : Content}
    (h : startNode x s name declared (x.markAt offset) hasBody b = .ok (id, content) b')
    (hs : s.Placed x b) : Advances b b' ∧ Inside b' id := by
  unfold startNode at h
  dsimp only at h
  obtain ⟨_, _, hget, h⟩ := BuildM.bind_eq_ok.mp h
  cases hget
  split at h
  · exact startStandard_advances hi h hs.parent (hs.mark offset)
  · split at h
    · obtain ⟨_, _, hstart, h⟩ := BuildM.bind_eq_ok.mp h
      obtain ⟨_, _, hget, h⟩ := BuildM.bind_eq_ok.mp h
      cases hget
      cases h
      exact startAction_advances hstart hs.parent (hs.mark offset)
    · obtain ⟨_, _, hadd, h⟩ := BuildM.bind_eq_ok.mp h
      cases h
      refine ⟨append_advances hadd (hs.parent.fits ?_ rfl rfl (by rintro _ ⟨⟩) (hs.mark offset)),
        inside_append hadd hs.parent rfl rfl⟩
      cases hasBody <;> rfl

theorem enterBody_advances {name : String} {mark : Mark} {hasBody : Bool} {id : NodeId}
    {content : Content} (h : enterBody s name mark hasBody id content b = .ok s' b')
    (hs : s.Placed x b) (hid : Inside b id) : Advances b b' ∧ s'.Placed x b' := by
  unfold enterBody at h
  split at h
  · obtain ⟨_, _, hopen, h⟩ := BuildM.bind_eq_ok.mp h
    have hb := (quietly_openBody _ hopen).toAdvances
    cases h
    have hs' := hs.advance hb
    exact ⟨hb, hs'.root, List.forall_mem_cons.mpr ⟨hid.advance hb, hs'.frames⟩, hs'.unit⟩
  · obtain ⟨_, _, hclose, h⟩ := BuildM.bind_eq_ok.mp h
    have hb := (quietly_close _ _ hclose).toAdvances
    cases h
    exact ⟨hb, hs.advance hb⟩

theorem startElement_advances (hi : Includes x.includeUnit) {inside : List Char} {offset : Nat}
    {hasBody : Bool} (h : startElement x s inside offset hasBody b = .ok s' b')
    (hs : s.Placed x b) : Advances b b' ∧ s'.Placed x b' := by
  rw [startElement_eq] at h
  obtain ⟨attrs, b₁, hattrs, h⟩ := BuildM.bind_eq_ok.mp h
  obtain ⟨declared, b₂, hdeclare, h⟩ := BuildM.bind_eq_ok.mp h
  have hb₂ := ((stilly_readAttributes _ _ hattrs).trans (stilly_declare _ _ _ hdeclare)).toAdvances
  have hs₂ : ({ s with standard := declared.standard } : State).Placed x b₂ :=
    (hs.advance hb₂).of_frames rfl
  obtain ⟨⟨id, content⟩, b₃, hnode, h⟩ := BuildM.bind_eq_ok.mp h
  obtain ⟨hb₃, hid⟩ := startNode_advances hi hnode hs₂
  obtain ⟨hb, hs'⟩ := enterBody_advances h (hs₂.advance hb₃) hid
  exact ⟨hb₂.trans (hb₃.trans hb), hs'⟩

theorem endElement_advances {name : String} {offset : Nat}
    (h : endElement x s name offset b = .ok s' b') (hs : s.Placed x b) :
    Advances b b' ∧ s'.Placed x b' := by
  unfold endElement at h
  cases hframes : s.frames with
  | nil =>
    rw [hframes] at h
    exact absurd h fail_ne_ok
  | cons frame rest =>
    rw [hframes] at h
    dsimp only at h
    split at h
    · obtain ⟨_, _, hclose, h⟩ := BuildM.bind_eq_ok.mp h
      have hb := (quietly_close _ _ hclose).toAdvances
      cases h
      have hs' := hs.advance hb
      refine ⟨hb, hs'.root, fun f hf => hs'.frames f ?_, hs'.unit⟩
      rw [hframes]
      exact List.mem_cons_of_mem _ hf
    · exact absurd h fail_ne_ok

theorem readMarkup_advances (hi : Includes x.includeUnit) {e : Markup.Located}
    (h : readMarkup x s e b = .ok s' b') (hs : s.Placed x b) :
    Advances b b' ∧ s'.Placed x b' := by
  unfold readMarkup at h
  cases hevent : e.event with
  | opening inside | empty inside =>
    rw [hevent] at h
    obtain ⟨s₁, b₁, hflush, h⟩ := BuildM.bind_eq_ok.mp h
    obtain ⟨hb₁, hs₁⟩ := flush_advances hflush hs
    obtain ⟨hb, hs'⟩ := startElement_advances hi h hs₁
    exact ⟨hb₁.trans hb, hs'⟩
  | closing name =>
    rw [hevent] at h
    obtain ⟨s₁, b₁, hflush, h⟩ := BuildM.bind_eq_ok.mp h
    obtain ⟨hb₁, hs₁⟩ := flush_advances hflush hs
    obtain ⟨hb, hs'⟩ := endElement_advances h hs₁
    exact ⟨hb₁.trans hb, hs'⟩
  | text raw =>
    rw [hevent] at h
    cases htext : Markup.unescape? raw with
    | none =>
      simp only [htext] at h
      exact absurd h fail_ne_ok
    | some text =>
      simp only [htext] at h
      cases h
      exact ⟨.refl _, hs.of_frames rfl⟩
  | cdata text =>
    rw [hevent] at h
    cases h
    exact ⟨.refl _, hs.of_frames rfl⟩
  | comment text =>
    rw [hevent] at h
    obtain ⟨s₁, b₁, hflush, h⟩ := BuildM.bind_eq_ok.mp h
    obtain ⟨hb₁, hs₁⟩ := flush_advances hflush hs
    obtain ⟨_, b₂, hadd, h⟩ := BuildM.bind_eq_ok.mp h
    have hb₂ := addComment_advances hadd hs₁.parent (hs₁.mark _)
    cases h
    exact ⟨hb₁.trans hb₂, hs₁.advance hb₂⟩
  | other =>
    rw [hevent] at h
    cases h
    exact ⟨.refl _, hs⟩

theorem frames_setContent_mem {content : Content} {frame : Frame}
    (h : frame ∈ (s.setContent content).frames) : ∃ f ∈ s.frames, f.id = frame.id := by
  unfold State.setContent at h
  cases hframes : s.frames with
  | nil =>
    rw [hframes] at h
    simp [hframes] at h
  | cons first rest =>
    rw [hframes] at h
    rcases List.mem_cons.mp h with rfl | h
    · exact ⟨first, List.mem_cons_self .., rfl⟩
    · exact ⟨frame, List.mem_cons_of_mem _ h, rfl⟩

theorem slice_eq_ok_iff {start stop : Nat} {piece : List Char} :
    x.slice start stop b = .ok piece b' ↔ slice? start stop x.text = some piece ∧ b' = b := by
  unfold Context.slice
  cases hslice : slice? start stop x.text with
  | none => exact ⟨fun h => absurd h fail_ne_ok, fun h => nomatch h.1⟩
  | some found =>
    constructor
    · rintro ⟨⟩
      exact ⟨rfl, rfl⟩
    · rintro ⟨⟨⟩, rfl⟩
      rfl

-- An event is kept as it is written where it belongs to a verbatim body, and is markup otherwise.
theorem readEvent_eq_ok {e : Markup.Located} (h : readEvent x s e b = .ok s' b') :
    (∃ depth depth' piece, s.content = .verbatim depth ∧
      verbatimDepth? depth e.event = some depth' ∧ slice? e.start e.stop x.text = some piece ∧
      s' = (s.setContent (.verbatim depth')).push piece e.start ∧ b' = b) ∨
    (∀ depth, s.content = .verbatim depth → verbatimDepth? depth e.event = none) ∧
      readMarkup x s e b = .ok s' b' := by
  unfold readEvent at h
  cases hc : s.content with
  | verbatim depth =>
    rw [hc] at h
    obtain ⟨piece, b₁, hslice, hread⟩ := BuildM.bind_eq_ok.mp h
    obtain ⟨hpiece, rfl⟩ := slice_eq_ok_iff.mp hslice
    cases hdepth : verbatimDepth? depth e.event with
    | none =>
      simp only [hdepth] at hread
      refine .inr ⟨?_, hread⟩
      rintro _ ⟨⟩
      exact hdepth
    | some depth' =>
      simp only [hdepth] at hread
      cases hread
      exact .inl ⟨depth, depth', piece, rfl, hdepth, hpiece, rfl, rfl⟩
  | markup | code | text | directive =>
    rw [hc] at h
    exact .inr ⟨nofun, h⟩

theorem readEnd_eq_ok {stop : Nat} {v : Unit} (h : readEnd x s stop b = .ok v b') : b' = b := by
  unfold readEnd at h
  cases hc : s.content with
  | verbatim depth =>
    rw [hc] at h
    obtain ⟨piece, hslice⟩ := BuildM.discard_eq_ok h
    exact (slice_eq_ok_iff.mp hslice).2
  | markup | code | text | directive =>
    rw [hc] at h
    cases h
    rfl

theorem readEvent_advances (hi : Includes x.includeUnit) {e : Markup.Located}
    (h : readEvent x s e b = .ok s' b') (hs : s.Placed x b) :
    Advances b b' ∧ s'.Placed x b' := by
  rcases readEvent_eq_ok h with ⟨depth, depth', piece, -, -, -, rfl, rfl⟩ | ⟨-, h⟩
  · refine ⟨.refl _, hs.root, fun frame hframe => ?_, hs.unit⟩
    obtain ⟨f, hf, hid⟩ := frames_setContent_mem hframe
    exact hid ▸ hs.frames f hf
  · exact readMarkup_advances hi h hs

theorem foldlM_advances (hi : Includes x.includeUnit) {events : List Markup.Located}
    (h : events.foldlM (readEvent x) s b = .ok s' b') (hs : s.Placed x b) :
    Advances b b' ∧ s'.Placed x b' := by
  induction events generalizing s b with
  | nil =>
    cases h
    exact ⟨.refl _, hs⟩
  | cons e events ih =>
    rw [List.foldlM_cons] at h
    obtain ⟨s₁, b₁, hevent, h⟩ := BuildM.bind_eq_ok.mp h
    obtain ⟨hb₁, hs₁⟩ := readEvent_advances hi hevent hs
    obtain ⟨hb, hs'⟩ := ih h hs₁
    exact ⟨hb₁.trans hb, hs'⟩

theorem placed_start (hroot : Inside b x.root) (hunit : b.units.head? = some x.unit) :
    ({} : State).Placed x b :=
  ⟨hroot, by simp, hunit⟩

-- A document that can be read is read to its end, and leaves no element open.
theorem readDocument_eq_ok {d : Markup.Document} {u : Unit} (h : readDocument x d b = .ok u b') :
    d.broken = none ∧ ∃ s₁ b₁ s₂, d.events.foldlM (readEvent x) {} b = .ok s₁ b₁ ∧
      flush x s₁ b₁ = .ok s₂ b' ∧ s₂.frames = [] := by
  unfold readDocument at h
  obtain ⟨s₁, b₁, hevents, h⟩ := BuildM.bind_eq_ok.mp h
  cases hbroken : d.broken with
  | some offset =>
    rw [hbroken] at h
    exact absurd h fail_ne_ok
  | none =>
    rw [hbroken] at h
    obtain ⟨u₁, b₂, hend, h⟩ := BuildM.bind_eq_ok.mp h
    obtain ⟨s₂, b₃, hflush, h⟩ := BuildM.bind_eq_ok.mp h
    rw [readEnd_eq_ok hend] at hflush
    cases hframes : s₂.frames with
    | cons frame rest =>
      rw [hframes] at h
      exact absurd h fail_ne_ok
    | nil =>
      rw [hframes] at h
      cases h
      exact ⟨rfl, s₁, b₁, s₂, hevents, hflush, hframes⟩

theorem readDocument_advances (hi : Includes x.includeUnit) {d : Markup.Document} {u : Unit}
    (h : readDocument x d b = .ok u b') (hs : ({} : State).Placed x b) : Advances b b' := by
  obtain ⟨-, s₁, b₁, s₂, hevents, hflush, -⟩ := readDocument_eq_ok h
  obtain ⟨hb₁, hs₁⟩ := foldlM_advances hi hevents hs
  exact hb₁.trans (flush_advances hflush hs₁).1

end Strict

end PageCompiler
