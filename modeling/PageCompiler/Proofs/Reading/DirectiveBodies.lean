import PageCompiler.Checking.Settings
import PageCompiler.Proofs.Reading.DirectiveSteps
import PageCompiler.Proofs.Reading.PageStages

-- A document is refused for text in a directive only when the text is made into a node, and its
-- tags and comments are never refused; so a directive has content exactly in documents that write
-- some.
namespace PageCompiler

open Text
open Markup (Event Located)

namespace Strict

open Builder

variable {units : Units} {data : UnitRoot} {x : Context} {b b' : Builder} {s s' : State}
  {t u : Tree} {seen behind : List Located} {e : Located} {id offset : Nat} {content : Content}

-- A document that is being read as one of the units.
structure Context.Orders (x : Context) (units : Units) (data : UnitRoot) : Prop where
  includes : IncludesOrderly units x.includeUnit
  unit_eq : x.unit = data.unit
  form_eq : data.form = .strict
  known : units data x.text

-- What has been seen ends in a tag that opens a directive, but for what makes no node.
def EndsInDirective (seen : List Located) : Prop :=
  ∃ before tag between, seen = before ++ tag :: between ∧ opensDirective before tag = true ∧
    ∀ d ∈ between, isSilent d.event = true

-- The open elements of a document, of which directives are given content only where the document
-- writes some. The innermost one has been given none as long as its tag was the last one.
structure State.Roomy (s : State) (x : Context) (seen : List Located) (t : Tree) : Prop where
  root : t.Takes x.root
  frames : ∀ frame ∈ s.frames,
    frame.id < t.size ∧ (frame.content ≠ .directive → t.Takes frame.id)
  outer : ∀ frame ∈ s.frames.tail, frame.content = .directive →
    FillsDirective (Markup.read x.text).events
  inner : s.content = .directive →
    FillsDirective (Markup.read x.text).events ∨ EndsInDirective seen
  standard : ∀ space ∈ s.standard, isStandard seen space = true

theorem State.Roomy.of_extends (h : s.Roomy x seen t) (he : t.Extends u) : s.Roomy x seen u :=
  ⟨h.root.of_extends he, fun frame hframe =>
    ⟨(h.frames frame hframe).1.trans_le he.size_le,
      fun hcontent => ((h.frames frame hframe).2 hcontent).of_extends he⟩, h.outer, h.inner,
    h.standard⟩

theorem State.Roomy.takes (h : s.Roomy x seen t) (hcontent : s.content ≠ .directive) :
    t.Takes (s.parent x) := by
  unfold State.content at hcontent
  unfold State.parent
  cases hframes : s.frames with
  | nil => exact h.root
  | cons frame rest =>
    rw [hframes] at hcontent
    exact (h.frames frame (by rw [hframes]; exact List.mem_cons_self ..)).2 hcontent

-- A tag or a comment that closes nothing is the content of the directive it stands in.
theorem State.Roomy.fills (h : s.Roomy x seen t)
    (hevents : (Markup.read x.text).events = seen ++ e :: behind)
    (hsilent : isSilent e.event = false) (hclosing : isClosing e.event = false)
    (hcontent : s.content = .directive) : FillsDirective (Markup.read x.text).events := by
  rcases h.inner hcontent with hfills | ⟨before, tag, between, rfl, htag, hbetween⟩
  · exact hfills
  · rw [hevents, List.append_assoc, List.cons_append]
    exact fillsDirective_of_opensDirective htag hbetween hsilent hclosing

theorem State.Roomy.admits (h : s.Roomy x seen t) (hx : x.Orders units data)
    (hevents : (Markup.read x.text).events = seen ++ e :: behind)
    (hsilent : isSilent e.event = false) (hclosing : isClosing e.event = false) :
    t.Admits units (s.parent x) x.unit := by
  by_cases hcontent : s.content = .directive
  · have hfills := h.fills hevents hsilent hclosing hcontent
    refine ⟨?_, .inr ⟨data, x.text, hx.known, hx.unit_eq.symm, hx.form_eq, hfills⟩⟩
    unfold State.content at hcontent
    unfold State.parent
    cases hframes : s.frames with
    | nil =>
      rw [hframes] at hcontent
      cases hcontent
    | cons frame rest => exact (h.frames frame (by rw [hframes]; exact List.mem_cons_self ..)).1
  · exact (h.takes hcontent).admits _

theorem flush_orders (h : flush x s b = .ok s' b') (hs : s.Roomy x seen b.tree) :
    Orders units b b' := by
  unfold flush at h
  split at h
  · cases h
    exact .refl _
  · cases hc : s.content with
    | directive =>
      rw [hc] at h
      dsimp only at h
      split at h
      · cases h
        exact .refl _
      · obtain ⟨_, _, _, h⟩ := BuildM.bind_eq_ok.mp h
        obtain ⟨_, _, hfail, _⟩ := BuildM.bind_eq_ok.mp h
        exact absurd hfail fail_ne_ok
    | code | verbatim _ =>
      have hp := hs.takes (by simp [hc])
      rw [hc] at h
      obtain ⟨_, _, hadd, h⟩ := BuildM.bind_eq_ok.mp h
      cases h
      exact addVerbatim_orders hadd hp
    | text =>
      have hp := hs.takes (by simp [hc])
      rw [hc] at h
      obtain ⟨_, _, hadd, h⟩ := BuildM.bind_eq_ok.mp h
      cases h
      exact addText_orders hadd hp
    | markup =>
      have hp := hs.takes (by simp [hc])
      rw [hc] at h
      dsimp only at h
      split at h
      · obtain ⟨_, _, hadd, h⟩ := BuildM.bind_eq_ok.mp h
        cases h
        exact addText_orders hadd hp
      · cases h
        exact .refl _

theorem close_orders (h : close id content b = .ok () b') : Orders units b b' := by
  unfold close at h
  obtain ⟨_, _, hget, h⟩ := BuildM.bind_eq_ok.mp h
  cases hget
  split at h
  · cases h
    exact .refl _
  · exact orders_finishElement id h

-- The node of an element is there, and is a directive only when its tag says so.
structure Makes (units : Units) (seen : List Located) (inside : List Char) (b : Builder)
    (id : NodeId) (content : Content) (b' : Builder) : Prop where
  orders : Orders units b b'
  lt_size : id < b'.tree.size
  takes : content ≠ .directive → b'.tree.Takes id
  opens : content = .directive → namesDirective seen inside = true

theorem Makes.of_takes {inside : List Char} (h : Orders units b b' ∧ b'.tree.Takes id)
    (hcontent : content ≠ .directive) : Makes units seen inside b id content b' :=
  ⟨h.1, h.2.lt_size, fun _ => h.2, fun hdirective => absurd hdirective hcontent⟩

theorem startStandard_makes (hx : x.Orders units data) {parent : NodeId} {name : String}
    {attrs : List Attribute} {mark : Mark} {hasBody : Bool} {inside : List Char}
    (h : startStandard x parent name attrs mark hasBody b = .ok (id, content) b')
    (hp : b.tree.Admits units parent mark.unit)
    (htag : (withoutStart? "directive." name).isSome → namesDirective seen inside = true) :
    Makes units seen inside b id content b' := by
  unfold startStandard at h
  cases hname : withoutStart? "directive." name with
  | some directive =>
    rw [hname] at h htag
    obtain ⟨_, _, hadd, h⟩ := BuildM.bind_eq_ok.mp h
    cases h
    obtain ⟨hb, hid⟩ := addDirective_orders hx.includes hadd hp
    exact ⟨hb, hid, fun hne => absurd rfl hne, fun _ => htag rfl⟩
  | none =>
    rw [hname] at h
    cases hkind : scriptKind? name with
    | some kind =>
      simp only [hkind] at h
      cases attrs with
      | cons a rest => exact absurd h fail_ne_ok
      | nil =>
        obtain ⟨_, _, hadd, h⟩ := BuildM.bind_eq_ok.mp h
        cases h
        exact .of_takes (addScript_orders hadd hp) nofun
    | none =>
      simp only [hkind] at h
      obtain ⟨_, _, hstart, h⟩ := BuildM.bind_eq_ok.mp h
      cases h
      refine .of_takes (startAction_orders hstart hp) ?_
      split <;> nofun

theorem startNode_makes (hx : x.Orders units data) {inside : List Char} {declared : Declared}
    {hasBody : Bool}
    (h : startNode x s (String.ofList (Markup.StartTag.name inside)) declared (x.markAt offset)
      hasBody b = .ok (id, content) b')
    (hp : b.tree.Admits units (s.parent x) x.unit)
    (hstandard : ∀ space ∈ s.standard, isStandard seen space = true) :
    Makes units seen inside b id content b' := by
  have hp' : b.tree.Admits units (s.parent x) (x.markAt offset).unit := by
    rwa [x.unit_markAt]
  unfold startNode at h
  dsimp only at h
  obtain ⟨_, _, hget, h⟩ := BuildM.bind_eq_ok.mp h
  cases hget
  split at h
  · rename_i hspace
    refine startStandard_makes hx h hp' fun hopens => ?_
    rw [namesDirective, Bool.and_eq_true]
    exact ⟨hstandard _ (List.contains_iff_mem.mp hspace), hopens⟩
  · split at h
    · obtain ⟨_, _, hstart, h⟩ := BuildM.bind_eq_ok.mp h
      obtain ⟨_, _, hget, h⟩ := BuildM.bind_eq_ok.mp h
      cases hget
      cases h
      refine .of_takes (startAction_orders hstart hp') ?_
      split <;> nofun
    · obtain ⟨_, _, hadd, h⟩ := BuildM.bind_eq_ok.mp h
      cases h
      refine .of_takes ⟨append_orders hadd hp' ?_ nofun rfl rfl rfl, takes_append hadd rfl⟩ nofun
      cases hasBody <;> rfl

-- A prefix stands for the namespace of the standard actions only if a tag binds it to that.
theorem mem_of_declareOne_standard {d d' : Declared} {a : Attribute} {mark : Mark}
    (h : declareOne mark d a b = .ok d' b') : ∀ space ∈ d'.standard, space ∈ d.standard ∨
      withoutStart? "xmlns:" a.name = some space ∧ a.value = standardUri := by
  unfold declareOne at h
  cases hspace : withoutStart? "xmlns:" a.name with
  | none =>
    simp only [hspace] at h
    split at h <;> cases h <;> exact fun _ hmem => .inl hmem
  | some space =>
    simp only [hspace] at h
    split at h
    · rename_i hvalue
      cases h
      intro other hmem
      rcases List.mem_cons.mp hmem with rfl | hmem
      · exact .inr ⟨rfl, hvalue⟩
      · exact .inl hmem
    · cases hdirectory : withoutStart? directoryUrn a.value with
      | some directory =>
        simp only [hdirectory] at h
        obtain ⟨_, _, -, h⟩ := BuildM.bind_eq_ok.mp h
        cases h
        exact fun _ hmem => .inl hmem
      | none =>
        simp only [hdirectory] at h
        obtain ⟨_, _, -, h⟩ := BuildM.bind_eq_ok.mp h
        split at h <;> cases h <;> exact fun _ hmem => .inl hmem

theorem mem_of_foldlM_standard {attrs : List Attribute} {d d' : Declared} {mark : Mark}
    (h : attrs.foldlM (declareOne mark) d b = .ok d' b') : ∀ space ∈ d'.standard,
      space ∈ d.standard ∨
        ∃ a ∈ attrs, withoutStart? "xmlns:" a.name = some space ∧ a.value = standardUri := by
  induction attrs generalizing d b with
  | nil =>
    cases h
    exact fun _ hmem => .inl hmem
  | cons a attrs ih =>
    rw [List.foldlM_cons] at h
    obtain ⟨d₁, b₁, hfirst, h⟩ := BuildM.bind_eq_ok.mp h
    intro space hmem
    rcases ih h space hmem with hmem | ⟨a', ha', hbinds⟩
    · refine (mem_of_declareOne_standard hfirst space hmem).imp_right fun hbinds => ?_
      exact ⟨a, List.mem_cons_self .., hbinds⟩
    · exact .inr ⟨a', List.mem_cons_of_mem _ ha', hbinds⟩

theorem isStandard_of_declare {inside : List Char} {mark mark' : Mark} {standard : List String}
    {attrs : List Attribute} {declared : Declared} {b₁ b₂ : Builder}
    (he : e.event = .opening inside ∨ e.event = .empty inside)
    (hread : readAttributes inside mark b = .ok attrs b₁)
    (hdeclare : declare standard attrs mark' b₁ = .ok declared b₂)
    (h : ∀ space ∈ standard, isStandard seen space = true) :
    ∀ space ∈ declared.standard, isStandard (seen ++ [e]) space = true := by
  intro space hmem
  rcases mem_of_foldlM_standard hdeclare space hmem with hmem | ⟨a, ha, hname, hvalue⟩
  · exact isStandard_append (h space hmem) _
  · refine isStandard_of_bindsStandard he ?_
    unfold readAttributes at hread
    cases hwritten : Markup.StartTag.attributes? inside with
    | none =>
      rw [hwritten] at hread
      exact absurd hread fail_ne_ok
    | some written =>
      rw [hwritten] at hread
      cases hread
      obtain ⟨⟨name, value⟩, hpair, rfl⟩ := List.mem_map.mp ha
      rw [bindsStandard, hwritten]
      refine List.any_eq_true.mpr ⟨(name, value), hpair, ?_⟩
      cases hcode : codeValue? value with
      | none | some code =>
        simp only [hcode] at hname hvalue
        simp only [hcode, hname]
        simpa using hvalue

-- Its node is made before its body is opened or closed.
theorem startElement_makes (hx : x.Orders units data) {inside : List Char} {hasBody : Bool}
    (h : startElement x s inside offset hasBody b = .ok s' b')
    (he : e.event = .opening inside ∨ e.event = .empty inside)
    (hp : b.tree.Admits units (s.parent x) x.unit)
    (hstandard : ∀ space ∈ s.standard, isStandard seen space = true) :
    ∃ standard id content b₁, Makes units (seen ++ [e]) inside b id content b₁ ∧
      (∀ space ∈ standard, isStandard (seen ++ [e]) space = true) ∧
      enterBody { s with standard } (String.ofList (Markup.StartTag.name inside)) (x.markAt offset)
        hasBody id content b₁ = .ok s' b' := by
  rw [startElement_eq] at h
  obtain ⟨attrs, b₁, hattrs, h⟩ := BuildM.bind_eq_ok.mp h
  obtain ⟨declared, b₂, hdeclare, h⟩ := BuildM.bind_eq_ok.mp h
  obtain ⟨⟨id, content⟩, b₃, hnode, h⟩ := BuildM.bind_eq_ok.mp h
  have hb₂ : Orders units b b₂ :=
    ((stilly_readAttributes _ _ hattrs).trans (stilly_declare _ _ _ hdeclare)).orders
  have hknown : ∀ space ∈ declared.standard, isStandard (seen ++ [e]) space = true :=
    isStandard_of_declare he hattrs hdeclare hstandard
  obtain ⟨hb, hid, htakes, hopens⟩ :=
    startNode_makes (s := { s with standard := declared.standard }) hx hnode
      (hp.of_extends hb₂.grown) hknown
  exact ⟨declared.standard, id, content, b₃, ⟨hb₂.trans hb, hid, htakes, hopens⟩, hknown, h⟩

-- An element is opened.
theorem startElement_opening (hx : x.Orders units data) {inside : List Char}
    (h : startElement x s inside offset true b = .ok s' b') (hevent : e.event = .opening inside)
    (hevents : (Markup.read x.text).events = seen ++ e :: behind)
    (hs : s.Roomy x seen b.tree) : Orders units b b' ∧ s'.Roomy x (seen ++ [e]) b'.tree := by
  have hsilent : isSilent e.event = false := by rw [hevent]; rfl
  have hclosing : isClosing e.event = false := by rw [hevent]; rfl
  obtain ⟨standard, id, content, b₁, hmakes, hstandard, henter⟩ :=
    startElement_makes hx h (.inl hevent) (hs.admits hx hevents hsilent hclosing) hs.standard
  unfold enterBody at henter
  rw [if_pos rfl] at henter
  obtain ⟨_, _, hopen, henter⟩ := BuildM.bind_eq_ok.mp henter
  have hopened : Orders units b₁ _ := orders_openBody id hopen
  cases hopen
  cases henter
  have hb := hmakes.orders.trans hopened
  obtain ⟨hroot, hframes, houter, hinner, -⟩ := hs.of_extends hb.grown
  refine ⟨hb, hroot, List.forall_mem_cons.mpr ⟨?_, hframes⟩, fun frame hframe hcontent => ?_, ?_,
    hstandard⟩
  · exact ⟨hmakes.lt_size.trans_le hopened.grown.size_le,
      fun hne => (hmakes.takes hne).of_extends hopened.grown⟩
  · -- What was the innermost element has content now.
    cases hall : s.frames with
    | nil =>
      rw [List.tail_cons, hall] at hframe
      cases hframe
    | cons first rest =>
      rw [List.tail_cons, hall] at hframe
      rcases List.mem_cons.mp hframe with rfl | hframe
      · exact hs.fills hevents hsilent hclosing (by simp [State.content, hall, hcontent])
      · exact houter frame (by rw [hall]; exact hframe) hcontent
  · intro hcontent
    refine .inr ⟨seen, e, [], rfl, ?_, nofun⟩
    rw [opensDirective, hevent]
    exact hmakes.opens hcontent

-- An element that is an empty tag.
theorem startElement_empty_orders (hx : x.Orders units data) {inside : List Char}
    (h : startElement x s inside offset false b = .ok s' b') (hevent : e.event = .empty inside)
    (hevents : (Markup.read x.text).events = seen ++ e :: behind)
    (hs : s.Roomy x seen b.tree) : Orders units b b' ∧ s'.Roomy x (seen ++ [e]) b'.tree := by
  have hsilent : isSilent e.event = false := by rw [hevent]; rfl
  have hclosing : isClosing e.event = false := by rw [hevent]; rfl
  obtain ⟨standard, id, content, b₁, hmakes, hstandard, henter⟩ :=
    startElement_makes hx h (.inr hevent) (hs.admits hx hevents hsilent hclosing) hs.standard
  unfold enterBody at henter
  rw [if_neg (by decide)] at henter
  obtain ⟨_, _, hclose, henter⟩ := BuildM.bind_eq_ok.mp henter
  cases henter
  have hb := hmakes.orders.trans (close_orders hclose)
  obtain ⟨hroot, hframes, houter, -, -⟩ := hs.of_extends hb.grown
  exact ⟨hb, hroot, hframes, houter, fun hcontent =>
    .inl (hs.fills hevents hsilent hclosing hcontent), hstandard⟩

-- An element is closed, and what it stands in has content.
theorem endElement_orders {name : String} (h : endElement x s name offset b = .ok s' b')
    (hs : s.Roomy x seen b.tree) (more : List Located) :
    Orders units b b' ∧ s'.Roomy x (seen ++ more) b'.tree := by
  unfold endElement at h
  cases hframes : s.frames with
  | nil =>
    rw [hframes] at h
    exact absurd h fail_ne_ok
  | cons frame rest =>
    simp only [hframes] at h
    split at h
    · obtain ⟨_, _, hclose, h⟩ := BuildM.bind_eq_ok.mp h
      cases h
      have hb : Orders units b b' := close_orders hclose
      obtain ⟨hroot, hall, houter, -, hstandard⟩ := hs.of_extends hb.grown
      rw [hframes] at hall houter
      refine ⟨hb, hroot, fun f hf => hall f (List.mem_cons_of_mem _ hf),
        fun f hf => houter f (List.mem_of_mem_tail hf), fun hcontent => .inl ?_,
        fun space hspace => isStandard_append (hstandard space hspace) more⟩
      cases rest with
      | nil => cases hcontent
      | cons next rest => exact houter next (List.mem_cons_self ..) hcontent
    · exact absurd h fail_ne_ok

-- What makes no node leaves the innermost directive without content.
theorem State.Roomy.silent (h : s.Roomy x seen t) (hsilent : isSilent e.event = true)
    (hframes : s'.frames = s.frames) (hstandard : s'.standard = s.standard) :
    s'.Roomy x (seen ++ [e]) t := by
  have hcontent : s'.content = s.content := by rw [State.content, hframes, State.content]
  refine ⟨h.root, hframes ▸ h.frames, hframes ▸ h.outer, fun hdirective => ?_, fun space hspace =>
    isStandard_append (h.standard space (hstandard ▸ hspace)) _⟩
  refine (h.inner (hcontent ▸ hdirective)).imp_right ?_
  rintro ⟨before, tag, between, rfl, htag, hbetween⟩
  refine ⟨before, tag, between ++ [e], by simp, htag, ?_⟩
  exact List.forall_mem_append.mpr ⟨hbetween, by simpa using hsilent⟩

-- Markup is read when what is pending has been made into nodes.
theorem flush_roomy (h : flush x s b = .ok s' b') (hs : s.Roomy x seen b.tree) :
    Orders units b b' ∧ s'.Roomy x seen b'.tree := by
  have hb : Orders units b b' := flush_orders h hs
  obtain ⟨hroot, hframes, houter, hinner, hstandard⟩ := hs.of_extends hb.grown
  rw [flush_state h]
  exact ⟨hb, hroot, hframes, houter, hinner, hstandard⟩

theorem readMarkup_orders (hx : x.Orders units data) (h : readMarkup x s e b = .ok s' b')
    (hevents : (Markup.read x.text).events = seen ++ e :: behind) (hs : s.Roomy x seen b.tree) :
    Orders units b b' ∧ s'.Roomy x (seen ++ [e]) b'.tree := by
  unfold readMarkup at h
  cases hevent : e.event with
  | opening inside =>
    rw [hevent] at h
    obtain ⟨s₁, b₁, hfirst, h⟩ := BuildM.bind_eq_ok.mp h
    obtain ⟨hb₁, hs₁⟩ := flush_roomy hfirst hs
    exact (startElement_opening hx h hevent hevents hs₁).imp_left hb₁.trans
  | empty inside =>
    rw [hevent] at h
    obtain ⟨s₁, b₁, hfirst, h⟩ := BuildM.bind_eq_ok.mp h
    obtain ⟨hb₁, hs₁⟩ := flush_roomy hfirst hs
    exact (startElement_empty_orders hx h hevent hevents hs₁).imp_left hb₁.trans
  | closing name =>
    rw [hevent] at h
    obtain ⟨s₁, b₁, hfirst, h⟩ := BuildM.bind_eq_ok.mp h
    obtain ⟨hb₁, hs₁⟩ := flush_roomy hfirst hs
    exact (endElement_orders h hs₁ _).imp_left hb₁.trans
  | text raw =>
    rw [hevent] at h
    cases htext : Markup.unescape? raw with
    | none =>
      simp only [htext] at h
      exact absurd h fail_ne_ok
    | some text =>
      simp only [htext] at h
      cases h
      exact ⟨.refl _, hs.silent (by rw [hevent]; rfl) rfl rfl⟩
  | cdata text =>
    rw [hevent] at h
    cases h
    exact ⟨.refl _, hs.silent (by rw [hevent]; rfl) rfl rfl⟩
  | comment text =>
    rw [hevent] at h
    obtain ⟨s₁, b₁, hfirst, h⟩ := BuildM.bind_eq_ok.mp h
    obtain ⟨_, b₂, hadd, h⟩ := BuildM.bind_eq_ok.mp h
    cases h
    obtain ⟨hb₁, hs₁⟩ := flush_roomy hfirst hs
    have hsilent : isSilent e.event = false := by rw [hevent]; rfl
    have hclosing : isClosing e.event = false := by rw [hevent]; rfl
    have hp := hs₁.admits hx hevents hsilent hclosing
    rw [← x.unit_markAt e.start] at hp
    have hb : Orders units b₁ b' := addComment_orders hadd hp
    obtain ⟨hroot, hframes, houter, -, hstandard⟩ := hs₁.of_extends hb.grown
    exact ⟨hb₁.trans hb, hroot, hframes, houter, fun hcontent =>
      .inl (hs₁.fills hevents hsilent hclosing hcontent),
      fun space hspace => isStandard_append (hstandard space hspace) _⟩
  | other =>
    rw [hevent] at h
    cases h
    exact ⟨.refl _, hs.silent (by rw [hevent]; rfl) rfl rfl⟩

theorem readEvent_orders (hx : x.Orders units data) (h : readEvent x s e b = .ok s' b')
    (hevents : (Markup.read x.text).events = seen ++ e :: behind) (hs : s.Roomy x seen b.tree) :
    Orders units b b' ∧ s'.Roomy x (seen ++ [e]) b'.tree := by
  rcases readEvent_eq_ok h with ⟨depth, depth', piece, hc, -, -, rfl, rfl⟩ | ⟨-, h⟩
  · refine ⟨.refl _, ?_⟩
    unfold State.content at hc
    unfold State.setContent
    cases hframes : s.frames with
    | nil =>
      rw [hframes] at hc
      cases hc
    | cons frame rest =>
      rw [hframes] at hc
      have hall := hs.frames
      have houter := hs.outer
      rw [hframes] at hall houter
      obtain ⟨hfirst, hrest⟩ := List.forall_mem_cons.mp hall
      have hne : frame.content ≠ .directive := by
        rintro hdirective
        rw [List.head?_cons, Option.map_some, Option.getD_some, hdirective] at hc
        cases hc
      exact ⟨hs.root, List.forall_mem_cons.mpr ⟨⟨hfirst.1, fun _ => hfirst.2 hne⟩, hrest⟩, houter,
        nofun, fun space hspace => isStandard_append (hs.standard space hspace) _⟩
  · exact readMarkup_orders hx h hevents hs

-- By induction on the events that are left.
theorem foldlM_orders (hx : x.Orders units data) {events : List Located}
    (h : events.foldlM (readEvent x) s b = .ok s' b')
    (hevents : (Markup.read x.text).events = seen ++ events) (hs : s.Roomy x seen b.tree) :
    Orders units b b' ∧ ∃ seen', s'.Roomy x seen' b'.tree := by
  induction events generalizing seen s b with
  | nil =>
    cases h
    exact ⟨.refl _, seen, hs⟩
  | cons e events ih =>
    rw [List.foldlM_cons] at h
    obtain ⟨s₁, b₁, hevent, h⟩ := BuildM.bind_eq_ok.mp h
    obtain ⟨hb₁, hs₁⟩ := readEvent_orders hx hevent hevents hs
    obtain ⟨hb, hend⟩ := ih h (by rw [hevents, List.append_assoc]; rfl) hs₁
    exact ⟨hb₁.trans hb, hend⟩

theorem readDocument_orders (hx : x.Orders units data) {v : Unit}
    (h : readDocument x (Markup.read x.text) b = .ok v b') (hroot : b.tree.Takes x.root) :
    Orders units b b' := by
  obtain ⟨-, s₁, b₁, s₂, hevents, hflush, -⟩ := readDocument_eq_ok h
  obtain ⟨hb₁, seen, hs₁⟩ :=
    foldlM_orders hx hevents (List.nil_append _).symm
      ⟨hroot, nofun, nofun, nofun, fun _ hspace => by rw [List.mem_singleton.mp hspace]; rfl⟩
  exact hb₁.trans (flush_orders hflush hs₁)

end Strict

-- A walk that leaves out the bodies of childless nodes leaves out nothing.
theorem Tree.walk_eq_of_childless {t : Tree} {enter : NodeKind → Bool}
    (h : ∀ id, enter (t.kind id) = false → t.children id = []) (fuel : Nat) (stack : List NodeId) :
    t.walk enter fuel stack = t.walk (fun _ => true) fuel stack := by
  induction fuel generalizing stack with
  | zero => rfl
  | succ fuel ih =>
    cases stack with
    | nil => rfl
    | cons id stack =>
      rw [walk, walk, ih]
      cases hk : enter (t.kind id) with
      | true => rfl
      | false => rw [h id hk]; rfl

namespace Page

open Builder

variable {o : Options} {loader : Loader} {resolver resolver' : Resolver} {name : String}
  {page : Page} {b b' : Builder}

-- A unit that has been loaded is put under a root, which is no directive.
def ReadsOrderly (o : Options) (loader : Loader) (reader : UnitReader) : Prop :=
  ∀ {root : NodeId} {data : UnitRoot} {text : List Char} {b b' : Builder} {v : Unit},
    Loaded o loader data text → b.tree.Takes root →
      reader root data.unit text data.form b = .ok v b' → Orders (Loaded o loader) b b'

theorem includesOrderly_includeUnit {reader : UnitReader} (hr : ReadsOrderly o loader reader) :
    IncludesOrderly (Loaded o loader) (includeUnit o loader reader) := by
  intro parent root target mark b b' h hlt hparent hempty hfile
  unfold includeUnit at h
  obtain ⟨⟨root', unit, text, form⟩, b₂, henter, hrest⟩ := BuildM.bind_eq_ok.mp h
  obtain ⟨-, ⟨base, hbase⟩, data, b₁, hloaded, rfl, rfl, horigin, hstill, happend⟩ :=
    enterUnit_eq_ok henter
  obtain ⟨_, b₃, hread, hend⟩ := BuildM.bind_eq_ok.mp hrest
  cases hend
  have hnode : ∀ id, b₁.tree.node id = b.tree.node id := fun id => by
    rw [Tree.node, Tree.node, hstill.nodes_eq]
  have hthins : b.tree.Thins b₁.tree := Tree.thins_of_nodes hstill.nodes_eq
  have hb₂ := hr hloaded (takes_append happend rfl) hread
  obtain ⟨-, rfl⟩ := append_eq_ok happend
  refine ⟨hthins.alike.extends.trans ((Tree.extends_append _ _ _).trans hb₂.grown),
    fun hb => hb₂.orderly ?_⟩
  refine (hb.thins hthins).append_root (hthins.alike.size_eq ▸ hlt) ?_ ?_ rfl ?_
  · rw [Tree.kind, hnode]
    exact hparent
  · rw [Tree.children, hnode]
    exact hempty
  · rw [hnode]
    exact ⟨horigin, base, target, hfile, hbase⟩

-- Next to the page, the root of a unit is put under the root of the page.
theorem includeUnit_orders {reader : UnitReader} (hr : ReadsOrderly o loader reader)
    {parent root : NodeId} {target : String} {origin : UnitOrigin} {mark : Mark}
    (h : includeUnit o loader reader parent target origin mark b = .ok root b')
    (hp : b.tree.Takes parent) : Orders (Loaded o loader) b b' := by
  unfold includeUnit at h
  obtain ⟨⟨root', unit, text, form⟩, b₂, henter, hrest⟩ := BuildM.bind_eq_ok.mp h
  obtain ⟨-, -, data, b₁, hloaded, rfl, rfl, -, hstill, happend⟩ := enterUnit_eq_ok henter
  obtain ⟨_, b₃, hread, hend⟩ := BuildM.bind_eq_ok.mp hrest
  cases hend
  have hb₁ : Orders (Loaded o loader) b b₁ := hstill.orders
  have hb₃ := hr hloaded (takes_append happend rfl) hread
  obtain ⟨-, rfl⟩ := append_eq_ok happend
  exact hb₁.trans (.trans ⟨Tree.extends_append _ _ _, fun hb =>
    hb.append rfl (by simp) (.inl (hp.of_extends hb₁.grown).plain)⟩ hb₃)

theorem readLevel_orderly {inner : UnitReader} (hinner : ReadsOrderly o loader inner) :
    ReadsOrderly o loader (readLevel o loader inner) := by
  intro root data text b b' v hloaded hroot h
  have hi : IncludesOrderly (Loaded o loader) (includeUnit o loader inner) :=
    includesOrderly_includeUnit hinner
  unfold readLevel at h
  obtain ⟨_, _, hget, h⟩ := BuildM.bind_eq_ok.mp h
  cases hget
  obtain ⟨_, _, henter, h⟩ := BuildM.bind_eq_ok.mp h
  cases henter
  cases hform : data.form with
  | relaxed =>
    rw [hform] at h
    obtain ⟨_, b₁, hread, h⟩ := BuildM.bind_eq_ok.mp h
    cases h
    obtain ⟨hgrown, horderly⟩ : Orders (Loaded o loader) _ b₁ := Relaxed.read_orders hi hread hroot
    exact ⟨hgrown, horderly⟩
  | strict =>
    rw [hform] at h
    obtain ⟨_, b₁, hread, h⟩ := BuildM.bind_eq_ok.mp h
    cases h
    have hx : Strict.Context.Orders
        { root, unit := data.unit, text, keepBlanks := o.preserveXmlWhitespace
          includeUnit := includeUnit o loader inner } (Loaded o loader) data :=
      ⟨hi, rfl, hform, hloaded⟩
    obtain ⟨hgrown, horderly⟩ := Strict.readDocument_orders hx hread hroot
    exact ⟨hgrown, horderly⟩

-- By induction on how deep units may still include each other.
theorem readUnit_orderly (o : Options) (loader : Loader) (depth : Nat) :
    ReadsOrderly o loader (readUnit o loader depth) := by
  induction depth with
  | zero => exact fun _ _ h => absurd h fail_ne_ok
  | succ depth ih => exact readLevel_orderly ih

theorem ReadTo.orderly (h : ReadTo o loader resolver name b) :
    b.tree.Orderly (Loaded o loader) none := by
  obtain ⟨data, text, hloaded, -, -, -, hunits⟩ := h
  obtain ⟨_, b₁, _, b₂, _, hprelude, hread, hcoda⟩ := readUnits_eq_ok hunits
  have hr : ReadsOrderly o loader (readUnit o loader (loader.capacity + 1)) :=
    readUnit_orderly o loader _
  have hroot : (Tree.ofRoot data (String.ofList text)).Takes Tree.root := ⟨Nat.zero_lt_one, rfl⟩
  have hstart : (Tree.ofRoot data (String.ofList text)).Orderly (Loaded o loader) none := by
    constructor
    · intro id hid hk
      obtain rfl : id = Tree.root := Nat.lt_one_iff.mp hid
      rcases hk with hk | hk <;> cases hk
    · intro id hid _ hk
      obtain rfl : id = Tree.root := Nat.lt_one_iff.mp hid
      cases hk
  have : IsPreorder Builder fun b b' => b.tree.Takes Tree.root → Orders (Loaded o loader) b b' :=
    isPreorder_of_keeps fun hroot hb => hroot.of_extends hb.grown
  have hunit : ∀ origin mark name,
      Relates (fun b b' => b.tree.Takes Tree.root → Orders (Loaded o loader) b b')
        (includeUnit o loader (readUnit o loader (loader.capacity + 1)) Tree.root name origin mark) :=
    fun _ _ _ _ _ _ h hroot => includeUnit_orders hr h hroot
  have hb₁ := Relates.forIn (hunit .prelude _) _ hprelude hroot
  have hb₂ := hb₁.trans (hr hloaded (hroot.of_extends hb₁.grown) hread)
  have hb₃ := Relates.forIn (hunit .coda _) _ hcoda (hroot.of_extends hb₂.grown)
  exact (hb₂.trans hb₃).orderly hstart

theorem orderly_read (h : read o loader resolver name = (.ok page, resolver')) :
    page.tree.Orderly (Loaded o loader) none := by
  obtain ⟨b, b', hb, hfinish⟩ := readTo_of_read h
  rw [tree_of_finish hfinish]
  split
  · exact hb.orderly.thins (Tree.thins_prune _)
  · exact hb.orderly

-- A tag or a comment that a document of the page has written into a directive.
def Astray (o : Options) (loader : Loader) (page : Page) (c : NodeId) : Prop :=
  (page.tree.kind c).run? = none ∧ (page.tree.kind c).insert? = none ∧
    (page.tree.kind c).root? = none ∧
    ∃ data text, page.tree.kind (page.tree.unitRoot c) = .root data ∧ Loaded o loader data text ∧
      data.form = .strict ∧ Strict.FillsDirective (Markup.read text).events

theorem astray_of_stray (h : read o loader resolver name = (.ok page, resolver')) {c : NodeId}
    (hlt : c < page.tree.size) (hc : (page.tree.node c).Stray (Loaded o loader)) :
    Astray o loader page c := by
  obtain ⟨data, text, hroot, hunit, hloaded⟩ := unitRoot_read h hlt
  obtain ⟨data', text', hloaded', hunit', hform, hfills⟩ := hc.crowded
  have hname : data'.unit = data.unit := hunit'.trans hunit
  obtain ⟨rfl, -, hforms⟩ := hloaded.unique hloaded' hname
  exact ⟨hc.text, hc.insert, hc.root, data, text', hroot, hloaded, hforms ▸ hform, hfills⟩

-- No directive of a page that has been read holds text. An include directive holds the root of the
-- unit it includes, and what else stands in it, or in another directive, has been written there by
-- a document. When no document of the page writes a tag or a comment into a directive, page and
-- taglib directives hold nothing and include directives one root, and the directives are taken up
-- from all nodes of the page.
theorem directives_read (h : read o loader resolver name = (.ok page, resolver')) :
    (∀ id < page.tree.size,
      page.tree.kind id = .pageDirective ∨ page.tree.kind id = .taglibDirective →
        ∀ c ∈ page.tree.children id, Astray o loader page c) ∧
    (∀ id < page.tree.size, page.tree.kind id = .includeDirective →
      ∃ root data rest, page.tree.children id = root :: rest ∧ page.tree.kind root = .root data ∧
        data.IncludedBy (page.tree.node id).attributes ∧ ∀ c ∈ rest, Astray o loader page c) ∧
    ((∀ id < page.tree.size, ∀ data text, page.tree.kind id = .root data →
        Loaded o loader data text → data.form = .strict →
          ¬Strict.FillsDirective (Markup.read text).events) →
      (∀ id < page.tree.size,
        page.tree.kind id = .pageDirective ∨ page.tree.kind id = .taglibDirective →
          page.tree.children id = []) ∧
      (∀ id < page.tree.size, page.tree.kind id = .includeDirective →
        ∃ root data, page.tree.children id = [root] ∧ page.tree.kind root = .root data ∧
          data.IncludedBy (page.tree.node id).attributes) ∧
      page.tree.entered (fun kind => !Settings.isPageDirective kind) = page.tree.preorder) := by
  obtain ⟨hplain, hinclusion⟩ := orderly_read h
  refine ⟨fun id hid hk c hc => ?_, fun id hid hk => ?_, fun hnone => ?_⟩
  · obtain ⟨hlt, hstray⟩ := hplain id hid hk c hc
    exact astray_of_stray h hlt hstray
  · obtain ⟨root, data, rest, hchildren, -, hroot, hincluded, hrest⟩ :=
      hinclusion id hid nofun hk
    exact ⟨root, data, rest, hchildren, hroot, hincluded, fun c hc =>
      astray_of_stray h (hrest c hc).1 (hrest c hc).2⟩
  · have hno : ∀ c, c < page.tree.size → ¬(page.tree.node c).Stray (Loaded o loader) := by
      intro c hlt hc
      obtain ⟨-, -, -, data, text, hroot, hloaded, hform, hfills⟩ := astray_of_stray h hlt hc
      exact hnone _ ((page.tree.unitRoot_le c).trans_lt hlt) data text hroot hloaded hform hfills
    have hempty : ∀ id < page.tree.size,
        page.tree.kind id = .pageDirective ∨ page.tree.kind id = .taglibDirective →
          page.tree.children id = [] := by
      intro id hid hk
      refine List.eq_nil_iff_forall_not_mem.mpr fun c hc => ?_
      obtain ⟨hlt, hstray⟩ := hplain id hid hk c hc
      exact hno c hlt hstray
    refine ⟨hempty, fun id hid hk => ?_, ?_⟩
    · obtain ⟨root, data, rest, hchildren, -, hroot, hincluded, hrest⟩ :=
        hinclusion id hid nofun hk
      obtain rfl : rest = [] := List.eq_nil_iff_forall_not_mem.mpr fun c hc =>
        hno c (hrest c hc).1 (hrest c hc).2
      exact ⟨root, data, hchildren, hroot, hincluded⟩
    · refine Tree.walk_eq_of_childless (fun id hid => ?_) _ _
      have hk : page.tree.kind id = .pageDirective :=
        Settings.isPageDirective_iff.mp (by simpa using hid)
      rcases Nat.lt_or_ge id page.tree.size with hlt | hge
      · exact hempty id hlt (.inl hk)
      · rw [Tree.children, Tree.node_of_size_le hge]
        rfl

end Page

-- A document with an element in a page directive.
def filledDirectiveUnits : Loader :=
  .ofUnits
    [("main.pagx", Text.Utf8.ofString
      ("<jsp:root xmlns:jsp=\"http://java.sun.com/JSP/Page\" version=\"2.1\">" ++
        "<jsp:directive.page><b/></jsp:directive.page></jsp:root>"))]

-- The page is read, and the element stands in the directive.
theorem Page.directives_read_filled :
    ∃ page resolver, Page.read {} filledDirectiveUnits (.ofLibraries []) "main.pagx" =
        (.ok page, resolver) ∧
      ∃ id < page.tree.size, page.tree.kind id = .pageDirective ∧
        ∃ c ∈ page.tree.children id, Page.Astray {} filledDirectiveUnits page c := by
  have hrun : Page.passes {} filledDirectiveUnits (.ofLibraries []) "main.pagx" (fun page =>
      (List.range page.tree.size).any fun id =>
        Settings.isPageDirective (page.tree.kind id) && !(page.tree.children id).isEmpty) := by
    rw [filledDirectiveUnits, Text.Utf8.ofString_append, Text.Utf8.ofString_ofList,
      Text.Utf8.ofString_ofList]
    decide +kernel
  obtain ⟨page, resolver, h, htest⟩ := Page.of_passes hrun
  obtain ⟨id, hid, htest⟩ := List.any_eq_true.mp htest
  rw [Bool.and_eq_true, Settings.isPageDirective_iff, Bool.not_eq_true',
    List.isEmpty_eq_false_iff] at htest
  obtain ⟨hk, hne⟩ := htest
  obtain ⟨c, hc⟩ := List.exists_mem_of_ne_nil _ hne
  have hlt := List.mem_range.mp hid
  exact ⟨page, resolver, h, id, hlt, hk, c, hc, (Page.directives_read h).1 id hlt (.inl hk) c hc⟩

end PageCompiler
