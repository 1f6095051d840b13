import PageCompiler.Proofs.Reading.Pages

-- While a unit is being read, other units are asked for in one place only: at an include directive.
-- So includers that agree on what can be asked there give the same reading, failures included.
namespace PageCompiler

namespace BuildM

variable {α β : Type} {b : Builder}

theorem bind_congr {m m' : BuildM α} {f g : α → BuildM β} (hm : m b = m' b)
    (h : ∀ a b', m b = .ok a b' → f a b' = g a b') : (m >>= f) b = (m' >>= g) b := by
  simp only [Bind.bind, EStateM.bind, ← hm]
  cases hres : m b with
  | ok a b' => exact h a b' hres
  | error d b' => rfl

theorem map_congr {m m' : BuildM α} (f : α → β) (hm : m b = m' b) :
    (f <$> m) b = (f <$> m') b := by
  rw [map_eq_pure_bind, map_eq_pure_bind]
  exact bind_congr hm fun _ _ _ => rfl

theorem discard_congr {m m' : BuildM α} (hm : m b = m' b) :
    Functor.discard m b = Functor.discard m' b :=
  map_congr _ hm

end BuildM

namespace Builder

variable {b : Builder} {parent : Nat} {mark : Mark} {f g : Includer}

-- Two includers do the same in a unit that is read inside of the given ones.
def SameIncludes (units : List String) (f g : Includer) : Prop :=
  ∀ (parent : NodeId) (target : String) (mark : Mark) (b : Builder), b.units = units →
    Inside b parent → f parent target .included mark b = g parent target .included mark b

theorem addDirective_congr (hfg : SameIncludes b.units f g) (hin : Inside b parent) (name : String)
    (attrs : List Attribute) :
    addDirective f parent name attrs mark b = addDirective g parent name attrs mark b := by
  unfold addDirective
  refine BuildM.bind_congr rfl fun _ b₁ hdistinct => ?_
  have hb₁ := (stilly_checkDistinct _ _ hdistinct).toAdvances
  split
  case h_3 =>
    refine BuildM.bind_congr rfl fun file b₂ hfile => ?_
    have hb₂ := hb₁.trans (stilly_required _ _ _ _ hfile).toAdvances
    refine BuildM.bind_congr rfl fun id b₃ happend => ?_
    have hnode := inside_append happend (hin.advance hb₂) rfl rfl
    have hunits : b₃.units = b.units := by
      rw [(append_eq_ok happend).2]
      exact hb₂.units_eq
    have hinclude := BuildM.discard_congr (hfg id file mark b₃ hunits hnode)
    exact BuildM.bind_congr hinclude fun _ _ _ => rfl
  all_goals rfl

end Builder

namespace Relaxed

open Builder

variable {f g : Includer} {root parent : Nat} {b : Builder} {s : State} {mark : Mark}

theorem readConstruct_congr (hfg : SameIncludes b.units f g) (hin : Inside b parent)
    (kind : Construct) (c : Cursor) :
    readConstruct f s parent kind mark c b = readConstruct g s parent kind mark c b := by
  -- Behind the directive's tag nothing has been built yet.
  have hadd : ∀ (name : String) (attrs : List Attribute) (behind : Cursor),
      (do
        discard (addDirective f parent name attrs mark)
        return s.resume behind : BuildM State) b =
      (do
        discard (addDirective g parent name attrs mark)
        return s.resume behind) b :=
    fun name attrs behind => BuildM.bind_congr
      (BuildM.discard_congr (addDirective_congr hfg hin name attrs)) fun _ _ _ => rfl
  cases kind with
  | directive =>
    refine BuildM.bind_congr rfl fun found b₁ hname => ?_
    obtain ⟨name, c₁⟩ := found
    obtain ⟨rfl, -⟩ := readDirectiveName_eq_ok hname
    refine BuildM.bind_congr rfl fun found b₂ hattrs => ?_
    obtain ⟨attrs, e, c₂⟩ := found
    obtain ⟨rfl, -⟩ := readAttributes_eq_ok hattrs
    exact hadd name attrs c₂
  | directiveElement =>
    refine BuildM.bind_congr rfl fun found b₁ hname => ?_
    obtain ⟨name, c₁⟩ := found
    obtain ⟨rfl, -⟩ := readDirectiveName_eq_ok hname
    refine BuildM.bind_congr rfl fun found b₂ hattrs => ?_
    obtain ⟨attrs, closed, c₂⟩ := found
    obtain ⟨rfl, -⟩ := readAttributes_eq_ok hattrs
    dsimp only
    split
    · cases c₂.skipBlanks.endTag? ("jsp:directive." ++ name) with
      | some behind => exact hadd name attrs behind
      | none => rfl
    · exact hadd name attrs c₂
  | comment | script _ | scriptElement _ | textElement | endTag | action _ => rfl

theorem step_congr (hfg : SameIncludes b.units f g) (hs : s.Placed root b) :
    step f root s b = step g root s b := by
  unfold step
  dsimp only
  cases (do let frame ← s.frames.head?; return (frame, ← s.cursor.endTag? frame.name) :
      Option (Frame × Cursor)) with
  | some found => rfl
  | none =>
    dsimp only
    split
    · rfl
    · refine BuildM.bind_congr rfl fun b₀ _ hget => ?_
      cases hget
      cases construct? b.bindings s.cursor.rest with
      | some found =>
        refine BuildM.bind_congr rfl fun _ b₁ hflush => ?_
        have hb₁ := flush_advances hflush hs
        have hparent := (hs.advance hb₁).parent
        exact BuildM.map_congr _ (readConstruct_congr (hb₁.units_eq ▸ hfg) hparent _ _)
      | none => rfl

-- One of the includers keeps to its own part of the tree, and so does the other then.
theorem run_congr (hf : Includes f) (hfg : SameIncludes b.units f g) (fuel : Nat)
    (hs : s.Placed root b) : run f root fuel s b = run g root fuel s b := by
  induction fuel generalizing s b with
  | zero => rfl
  | succ fuel ih =>
    refine BuildM.bind_congr (step_congr hfg hs) fun next b₁ hstep => ?_
    obtain ⟨hb₁, hnext⟩ := (step_move hstep).advances hf hs
    cases next with
    | none => rfl
    | some s' => exact ih (hb₁.units_eq ▸ hfg) (hnext s' rfl)

end Relaxed

namespace Strict

open Text Builder

variable {x : Context} {g : Includer} {b : Builder} {s : State}

theorem startStandard_congr (hfg : SameIncludes b.units x.includeUnit g) {parent : NodeId}
    (hin : Inside b parent) (name : String) (attrs : List Attribute) (mark : Mark)
    (hasBody : Bool) :
    startStandard x parent name attrs mark hasBody b =
      startStandard { x with includeUnit := g } parent name attrs mark hasBody b := by
  unfold startStandard
  cases withoutStart? "directive." name with
  | some directive =>
    exact BuildM.bind_congr (addDirective_congr hfg hin directive attrs) fun _ _ _ => rfl
  | none => rfl

theorem startNode_congr (hfg : SameIncludes b.units x.includeUnit g) (hs : s.Placed x b)
    (name : String) (declared : Declared) (mark : Mark) (hasBody : Bool) :
    startNode x s name declared mark hasBody b =
      startNode { x with includeUnit := g } s name declared mark hasBody b := by
  unfold startNode
  obtain ⟨space, inner⟩ := (cutString? ':' name).getD ("", name)
  refine BuildM.bind_congr rfl fun b₀ _ hget => ?_
  cases hget
  dsimp only
  split
  · exact startStandard_congr hfg hs.parent inner declared.plain mark hasBody
  · rfl

theorem startElement_congr (hfg : SameIncludes b.units x.includeUnit g) (hs : s.Placed x b)
    (inside : List Char) (offset : Nat) (hasBody : Bool) :
    startElement x s inside offset hasBody b =
      startElement { x with includeUnit := g } s inside offset hasBody b := by
  rw [startElement_eq, startElement_eq]
  refine BuildM.bind_congr rfl fun attrs b₁ hattrs => ?_
  refine BuildM.bind_congr rfl fun declared b₂ hdeclare => ?_
  have hb₂ := ((stilly_readAttributes _ _ hattrs).trans (stilly_declare _ _ _ hdeclare)).toAdvances
  have hs₂ : ({ s with standard := declared.standard } : State).Placed x b₂ :=
    (hs.advance hb₂).of_frames rfl
  have hnode := startNode_congr (hb₂.units_eq ▸ hfg) hs₂
  exact BuildM.bind_congr (hnode _ _ _ hasBody) fun _ _ _ => rfl

theorem readMarkup_congr (hfg : SameIncludes b.units x.includeUnit g) (hs : s.Placed x b)
    (e : Markup.Located) :
    readMarkup x s e b = readMarkup { x with includeUnit := g } s e b := by
  unfold readMarkup
  have hstart : ∀ (inside : List Char) (hasBody : Bool),
      (do startElement x (← flush x s) inside e.start hasBody : BuildM State) b =
      (do startElement { x with includeUnit := g } (← flush { x with includeUnit := g } s) inside
            e.start hasBody) b := by
    intro inside hasBody
    refine BuildM.bind_congr rfl fun s₁ b₁ hflush => ?_
    obtain ⟨hb₁, hs₁⟩ := flush_advances hflush hs
    exact startElement_congr (hb₁.units_eq ▸ hfg) hs₁ inside e.start hasBody
  cases e.event with
  | opening inside => exact hstart inside true
  | empty inside => exact hstart inside false
  | closing _ | text _ | cdata _ | comment _ | other => rfl

theorem readEvent_congr (hfg : SameIncludes b.units x.includeUnit g) (hs : s.Placed x b)
    (e : Markup.Located) :
    readEvent x s e b = readEvent { x with includeUnit := g } s e b := by
  unfold readEvent
  cases s.content with
  | verbatim depth =>
    dsimp only
    refine BuildM.bind_congr rfl fun piece b₁ hslice => ?_
    rw [(slice_eq_ok_iff.mp hslice).2]
    cases verbatimDepth? depth e.event with
    | some depth' => rfl
    | none => exact readMarkup_congr hfg hs e
  | markup | code | text | directive => exact readMarkup_congr hfg hs e

theorem foldlM_congr (hi : Includes x.includeUnit) (hfg : SameIncludes b.units x.includeUnit g)
    (events : List Markup.Located) (hs : s.Placed x b) :
    events.foldlM (readEvent x) s b =
      events.foldlM (readEvent { x with includeUnit := g }) s b := by
  induction events generalizing s b with
  | nil => rw [List.foldlM_nil, List.foldlM_nil]
  | cons e events ih =>
    rw [List.foldlM_cons, List.foldlM_cons]
    refine BuildM.bind_congr (readEvent_congr hfg hs e) fun s₁ b₁ hevent => ?_
    obtain ⟨hb₁, hs₁⟩ := readEvent_advances hi hevent hs
    exact ih (hb₁.units_eq ▸ hfg) hs₁

theorem readDocument_congr (hi : Includes x.includeUnit)
    (hfg : SameIncludes b.units x.includeUnit g) (d : Markup.Document)
    (hs : ({} : State).Placed x b) :
    readDocument x d b = readDocument { x with includeUnit := g } d b :=
  BuildM.bind_congr (foldlM_congr hi hfg d.events hs) fun _ _ _ => rfl

end Strict

end PageCompiler
