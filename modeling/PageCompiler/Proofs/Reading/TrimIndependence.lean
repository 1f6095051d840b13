import PageCompiler.Proofs.Reading.Pages

namespace PageCompiler

open Text

-- What comes to an end without a failure does so as well when blanks are to be treated in another
-- way, with the same result.
def Indifferent {α : Type} (m : BuildM α) : Prop :=
  ∀ ⦃b : Builder⦄ (v : Bool) ⦃a : α⦄ ⦃b' : Builder⦄, m b = .ok a b' →
    ∃ w, m { b with trimBlanks := v } = .ok a { b' with trimBlanks := w }

namespace Indifferent

variable {α β : Type}

theorem pure (a : α) : Indifferent (Pure.pure a : BuildM α) := by
  rintro b v a b' ⟨⟩
  exact ⟨v, rfl⟩

theorem throw (d : Diagnostic) : Indifferent (MonadExcept.throw d : BuildM α) := by
  rintro b v a b' ⟨⟩

theorem bind {m : BuildM α} {f : α → BuildM β} (hm : Indifferent m)
    (hf : ∀ a, Indifferent (f a)) : Indifferent (m >>= f) := by
  intro b v c b' h
  obtain ⟨a, s, hs, h⟩ := BuildM.bind_eq_ok.mp h
  obtain ⟨w, hw⟩ := hm v hs
  obtain ⟨w', hw'⟩ := hf a w h
  exact ⟨w', BuildM.bind_eq_ok.mpr ⟨a, _, hw, hw'⟩⟩

-- A step may depend on the state in every other respect.
theorem get_bind {f : Builder → BuildM α}
    (hf : ∀ (b : Builder) (v : Bool), f { b with trimBlanks := v } = f b)
    (h : ∀ b, Indifferent (f b)) : Indifferent (MonadState.get >>= f) := by
  intro b v a b' hrun
  have hrun : f b b = .ok a b' := hrun
  obtain ⟨w, hw⟩ := h b v hrun
  refine ⟨w, ?_⟩
  rw [← hf b v] at hw
  exact hw

theorem map {m : BuildM α} (f : α → β) (hm : Indifferent m) : Indifferent (f <$> m) :=
  hm.bind fun a => pure (f a)

theorem discard {m : BuildM α} (hm : Indifferent m) : Indifferent (Functor.discard m) := hm.map _

theorem of_modify {f : Builder → Builder}
    (h : ∀ (b : Builder) (v : Bool), ∃ w, f { b with trimBlanks := v } =
      { f b with trimBlanks := w }) : Indifferent (modify f) := by
  rintro b v a b' ⟨⟩
  obtain ⟨w, hw⟩ := h b v
  exact ⟨w, congrArg (EStateM.Result.ok PUnit.unit) hw⟩

theorem forIn {l : List α} {f : α → β → BuildM (ForInStep β)}
    (hf : ∀ a c, Indifferent (f a c)) (init : β) : Indifferent (forIn l init f) := by
  induction l generalizing init with
  | nil => exact pure init
  | cons a l ih =>
    rw [List.forIn_cons]
    refine (hf a init).bind fun r => ?_
    cases r with
    | done c => exact pure c
    | yield c => exact ih c

theorem foldlM {l : List α} {f : β → α → BuildM β} (hf : ∀ c a, Indifferent (f c a)) (init : β) :
    Indifferent (l.foldlM f init) := by
  induction l generalizing init with
  | nil => exact pure init
  | cons a l ih =>
    rw [List.foldlM_cons]
    exact (hf init a).bind ih

end Indifferent

namespace Builder

theorem indifferent_fail {α : Type} (fault : Fault) (mark : Mark) :
    Indifferent (fail fault mark : BuildM α) :=
  .get_bind (fun _ _ => rfl) fun _ => .throw _

theorem indifferent_invalidDirective {α : Type} (reason : String) (mark : Mark) :
    Indifferent (invalidDirective reason mark : BuildM α) := indifferent_fail _ _

theorem indifferent_placeError {α : Type} (mark : Mark) (r : Except Diagnostic α) :
    Indifferent (placeError mark r) := by
  cases r with
  | ok a => exact .pure a
  | error d =>
    rw [placeError, placed]
    split
    · exact .throw _
    · exact .get_bind (fun _ _ => rfl) fun _ => .throw _

theorem indifferent_modifyTree (f : Tree → Tree) : Indifferent (modifyTree f) :=
  .of_modify fun _ v => ⟨v, rfl⟩

theorem indifferent_modifyBindings (f : Bindings → Bindings) : Indifferent (modifyBindings f) :=
  .of_modify fun _ v => ⟨v, rfl⟩

theorem indifferent_append (parent : NodeId) (n : Node) : Indifferent (append parent n) := by
  rintro b v id b' ⟨⟩
  exact ⟨v, rfl⟩

theorem indifferent_addText (parent : NodeId) (text : List Char) (mark : Mark) :
    Indifferent (addText parent text mark) := by
  have hnodes : ∀ composite : Composite, Indifferent (forIn (partNodes mark text 0 composite.parts)
      PUnit.unit fun n _ => do
        discard (append parent n)
        pure (ForInStep.yield PUnit.unit) : BuildM PUnit) := fun composite =>
    .forIn (fun n _ => .bind (.discard (indifferent_append _ _)) fun _ => .pure _) _
  unfold addText
  split
  · exact .pure _
  · refine .get_bind (fun _ _ => rfl) fun b => ?_
    split
    · exact indifferent_fail _ _
    · exact .bind (hnodes _) fun _ => .pure _

theorem indifferent_addVerbatim (parent : NodeId) (text : List Char) (mark : Mark) :
    Indifferent (addVerbatim parent text mark) := by
  unfold addVerbatim
  split
  · exact .pure _
  · exact .discard (indifferent_append _ _)

theorem indifferent_addComment (parent : NodeId) (text : List Char) (mark : Mark) :
    Indifferent (addComment parent text mark) := .discard (indifferent_append _ _)

theorem indifferent_addScript (parent : NodeId) (kind : ScriptKind) (code : Script) (mark : Mark) :
    Indifferent (addScript parent kind code mark) := indifferent_append _ _

theorem indifferent_bindSpace (space : String) (ref : LibraryRef) (mark : Mark) :
    Indifferent (bindSpace space ref mark) := by
  unfold bindSpace
  with_reducible repeat' first
    | exact .pure _
    | exact indifferent_invalidDirective _ _
    | exact indifferent_modifyBindings _
    | refine .get_bind (fun _ _ => rfl) fun _ => ?_
    | refine .bind ?_ fun _ => ?_
    | split

theorem indifferent_resolve (ref : LibraryRef) (mark : Mark) : Indifferent (resolve ref mark) := by
  refine .bind ?_ fun _ => indifferent_placeError mark _
  rintro b v a b' ⟨⟩
  exact ⟨v, rfl⟩

theorem indifferent_bindNamespace (space : String) (ref : LibraryRef) (mark : Mark) :
    Indifferent (bindNamespace space ref mark) := by
  unfold bindNamespace
  with_reducible repeat' first
    | exact .pure _
    | exact indifferent_resolve _ _
    | exact indifferent_modifyBindings _
    | exact indifferent_bindSpace _ _ _
    | refine .get_bind (fun _ _ => rfl) fun _ => ?_
    | refine .bind ?_ fun _ => ?_
    | split

theorem indifferent_libraryOf (space : String) (mark : Mark) :
    Indifferent (libraryOf space mark) := by
  unfold libraryOf
  with_reducible repeat' first
    | exact .pure _
    | exact indifferent_fail _ _
    | exact indifferent_resolve _ _
    | exact indifferent_modifyBindings _
    | refine .get_bind (fun _ _ => rfl) fun _ => ?_
    | refine .bind ?_ fun _ => ?_
    | split
    | dsimp only

theorem indifferent_checkDistinct (action : String) (attrs : List Attribute) :
    Indifferent (checkDistinct action attrs) := by
  unfold checkDistinct
  split
  · exact indifferent_fail _ _
  · exact .pure _

theorem indifferent_required (action : String) (attrs : List Attribute) (name : String)
    (mark : Mark) : Indifferent (required action attrs name mark) := by
  unfold required
  split
  · exact .pure _
  · exact indifferent_fail _ _

theorem indifferent_libraryRef (attrs : List Attribute) (mark : Mark) :
    Indifferent (libraryRef attrs mark) := by
  unfold libraryRef
  split
  · exact .pure _
  · exact .pure _
  · exact indifferent_invalidDirective _ _
  · exact indifferent_fail _ _

-- Only here it is decided anew.
theorem applyPageAttributes_trim (attrs : List Attribute) (b : Builder) (v : Bool) :
    ∃ w, attrs.foldl applyPageAttribute { b with trimBlanks := v } =
      { attrs.foldl applyPageAttribute b with trimBlanks := w } := by
  induction attrs generalizing b v with
  | nil => exact ⟨v, rfl⟩
  | cons a attrs ih =>
    have hone : ∃ w, applyPageAttribute { b with trimBlanks := v } a =
        { applyPageAttribute b a with trimBlanks := w } := by
      unfold applyPageAttribute
      split <;> exact ⟨_, rfl⟩
    obtain ⟨w, hw⟩ := hone
    rw [List.foldl_cons, List.foldl_cons, hw]
    exact ih _ w

theorem indifferent_addDirective {includeUnit : Includer}
    (hi : ∀ parent target origin mark, Indifferent (includeUnit parent target origin mark))
    (parent : NodeId) (name : String) (attrs : List Attribute) (mark : Mark) :
    Indifferent (addDirective includeUnit parent name attrs mark) := by
  unfold addDirective
  with_reducible repeat' first
    | exact .pure _
    | exact indifferent_checkDistinct _ _
    | exact indifferent_append _ _
    | exact indifferent_required _ _ _ _
    | exact indifferent_libraryRef _ _
    | exact indifferent_bindSpace _ _ _
    | exact indifferent_invalidDirective _ _
    | exact .of_modify (applyPageAttributes_trim _)
    | exact .discard (hi _ _ _ _)
    | refine .bind ?_ fun _ => ?_
    | split

theorem indifferent_standardKind (parent : NodeId) (name : String) (attrs : List Attribute)
    (mark : Mark) (form : UnitForm) : Indifferent (standardKind parent name attrs mark form) := by
  unfold standardKind
  with_reducible repeat' first
    | exact .pure _
    | exact indifferent_required _ _ _ _
    | exact indifferent_fail _ _
    | refine .get_bind (fun _ _ => rfl) fun _ => ?_
    | refine .bind ?_ fun _ => ?_
    | split

theorem indifferent_startAction (parent : NodeId) (name : String) (attrs : List Attribute)
    (mark : Mark) (form : UnitForm) : Indifferent (startAction parent name attrs mark form) := by
  have hcustom : ∀ space name, Indifferent (customKind parent space name mark) := by
    intro space name
    unfold customKind
    refine .bind (indifferent_libraryOf _ _) fun library => ?_
    split
    · exact indifferent_fail _ _
    · exact .get_bind (fun _ _ => rfl) fun _ => .pure _
  unfold startAction
  with_reducible repeat' first
    | exact indifferent_checkDistinct _ _
    | exact indifferent_standardKind _ _ _ _ _
    | exact hcustom _ _
    | exact indifferent_append _ _
    | refine .bind ?_ fun _ => ?_
    | split

theorem indifferent_finishElement (id : NodeId) : Indifferent (finishElement id) := by
  unfold finishElement
  with_reducible repeat' first
    | exact .pure _
    | exact indifferent_modifyTree _
    | exact indifferent_fail _ _
    | refine .get_bind (fun _ _ => rfl) fun _ => ?_
    | refine .bind ?_ fun _ => ?_
    | split
    | dsimp only

end Builder

namespace Relaxed

open Builder

variable {includeUnit : Includer}

theorem indifferent_readAttribute (c : Cursor) : Indifferent (readAttribute c) := by
  unfold readAttribute readQuoted unexpected
  with_reducible repeat' first
    | exact .pure _
    | exact indifferent_fail _ _
    | refine .bind ?_ fun _ => ?_
    | split
    | dsimp only

-- By induction on the text that is left.
theorem indifferent_readAttributes (ends : List String) (start : Mark) (c : Cursor) :
    Indifferent (readAttributes ends start c) := by
  unfold readAttributes
  generalize c.rest.length + 1 = fuel
  induction fuel generalizing c with
  | zero => exact indifferent_fail _ _
  | succ fuel ih =>
    unfold readAttributesFrom
    with_reducible repeat' first
      | exact .pure _
      | exact indifferent_fail _ _
      | exact indifferent_readAttribute _
      | exact ih _
      | refine .bind ?_ fun _ => ?_
      | split
      | dsimp only

theorem indifferent_readThrough (delimiter construct : String) (mark : Mark) (c : Cursor) :
    Indifferent (readThrough delimiter construct mark c) := by
  unfold readThrough
  split
  · exact .pure _
  · exact indifferent_fail _ _

theorem indifferent_readBody (name : String) (mark : Mark) (c : Cursor) :
    Indifferent (readBody name mark c) := by
  unfold readBody
  split
  · exact .pure _
  · exact indifferent_fail _ _

theorem indifferent_readDirectiveName (mark : Mark) (c : Cursor) :
    Indifferent (readDirectiveName mark c) := by
  unfold readDirectiveName
  split
  · exact .pure _
  · exact indifferent_fail _ _

theorem indifferent_rejectScript (s : State) (construct : String) (mark : Mark) :
    Indifferent (rejectScript s construct mark) := by
  unfold rejectScript
  split
  · exact indifferent_fail _ _
  · exact .pure _

theorem indifferent_readText (s : State) : Indifferent (readText s) := by
  unfold readText
  refine .get_bind (fun _ _ => rfl) fun b => ?_
  split
  · exact indifferent_fail _ _
  · exact .pure _

theorem indifferent_readAction (s : State) (parent : NodeId) (name : String) (mark : Mark)
    (c : Cursor) : Indifferent (readAction s parent name mark c) := by
  unfold readAction
  with_reducible repeat' first
    | exact .pure _
    | exact indifferent_readAttributes _ _ _
    | exact indifferent_startAction _ _ _ _ _
    | exact indifferent_finishElement _
    | exact indifferent_modifyTree _
    | exact indifferent_readBody _ _ _
    | exact indifferent_addVerbatim _ _ _
    | refine .get_bind (fun _ _ => rfl) fun _ => ?_
    | refine .bind ?_ fun _ => ?_
    | split

theorem indifferent_readConstruct
    (hi : ∀ parent target origin mark, Indifferent (includeUnit parent target origin mark))
    (s : State) (parent : NodeId) (kind : Construct) (mark : Mark) (c : Cursor) :
    Indifferent (readConstruct includeUnit s parent kind mark c) := by
  unfold readConstruct
  with_reducible repeat' first
    | exact .pure _
    | exact indifferent_fail _ _
    | exact indifferent_readThrough _ _ _ _
    | exact indifferent_readDirectiveName _ _
    | exact indifferent_readAttributes _ _ _
    | exact indifferent_rejectScript _ _ _
    | exact indifferent_readBody _ _ _
    | exact indifferent_addComment _ _ _
    | exact indifferent_addText _ _ _
    | exact indifferent_readAction _ _ _ _ _
    | exact indifferent_startAction _ _ _ _ _
    | exact indifferent_finishElement _
    | exact indifferent_modifyTree _
    | exact .discard (indifferent_addDirective hi _ _ _ _)
    | exact .discard (indifferent_addScript _ _ _ _)
    | refine .bind ?_ fun _ => ?_
    | split
    | dsimp only

theorem indifferent_step
    (hi : ∀ parent target origin mark, Indifferent (includeUnit parent target origin mark))
    (root : NodeId) (s : State) : Indifferent (step includeUnit root s) := by
  unfold step
  with_reducible repeat' first
    | exact .pure _
    | exact indifferent_fail _ _
    | exact indifferent_addText _ _ _
    | exact indifferent_finishElement _
    | exact .map _ (indifferent_readConstruct hi _ _ _ _ _)
    | exact .map _ (indifferent_readText _)
    | refine .get_bind (fun _ _ => rfl) fun _ => ?_
    | refine .bind ?_ fun _ => ?_
    | split
    | dsimp only [flush]

-- By induction on the steps that are left.
theorem indifferent_run
    (hi : ∀ parent target origin mark, Indifferent (includeUnit parent target origin mark))
    (root : NodeId) (fuel : Nat) (s : State) : Indifferent (run includeUnit root fuel s) := by
  induction fuel generalizing s with
  | zero => exact .pure _
  | succ fuel ih =>
    refine .bind (indifferent_step hi root s) fun next => ?_
    cases next with
    | none => exact .pure _
    | some s' => exact ih s'

end Relaxed

namespace Strict

open Builder

variable {x : Context}

theorem indifferent_flush (s : State) : Indifferent (flush x s) := by
  unfold flush
  with_reducible repeat' first
    | exact .pure _
    | exact indifferent_fail _ _
    | exact indifferent_addText _ _ _
    | exact indifferent_addVerbatim _ _ _
    | refine .get_bind (fun _ _ => rfl) fun _ => ?_
    | refine .bind ?_ fun _ => ?_
    | split
    | dsimp only

theorem indifferent_declareOne (mark : Mark) (d : Declared) (a : Attribute) :
    Indifferent (declareOne mark d a) := by
  unfold declareOne
  with_reducible repeat' first
    | exact .pure _
    | exact indifferent_bindSpace _ _ _
    | exact indifferent_bindNamespace _ _ _
    | refine .bind ?_ fun _ => ?_
    | split

theorem indifferent_startStandard
    (hi : ∀ parent target origin mark, Indifferent (x.includeUnit parent target origin mark))
    (parent : NodeId) (name : String) (attrs : List Attribute) (mark : Mark) (hasBody : Bool) :
    Indifferent (startStandard x parent name attrs mark hasBody) := by
  unfold startStandard
  with_reducible repeat' first
    | exact .pure _
    | exact indifferent_fail _ _
    | exact indifferent_addDirective hi _ _ _ _
    | exact indifferent_addScript _ _ _ _
    | exact indifferent_startAction _ _ _ _ _
    | refine .bind ?_ fun _ => ?_
    | split

theorem indifferent_close (id : NodeId) (content : Content) : Indifferent (close id content) := by
  unfold close
  refine .get_bind (fun _ _ => rfl) fun b => ?_
  split
  · exact .pure _
  · exact indifferent_finishElement _

theorem indifferent_startElement
    (hi : ∀ parent target origin mark, Indifferent (x.includeUnit parent target origin mark))
    (s : State) (inside : List Char) (offset : Nat) (hasBody : Bool) :
    Indifferent (startElement x s inside offset hasBody) := by
  have hattributes : ∀ mark, Indifferent (readAttributes inside mark) := fun mark => by
    unfold readAttributes
    split
    · exact indifferent_fail _ _
    · exact .pure _
  unfold startElement
  with_reducible repeat' first
    | exact .pure _
    | exact hattributes _
    | exact .foldlM (indifferent_declareOne _) _
    | exact indifferent_startStandard hi _ _ _ _ _
    | exact indifferent_startAction _ _ _ _ _
    | exact indifferent_append _ _
    | exact indifferent_modifyTree _
    | exact indifferent_close _ _
    | refine .get_bind (fun _ _ => rfl) fun _ => ?_
    | refine .bind ?_ fun _ => ?_
    | split
    | dsimp only [declare]

theorem indifferent_endElement (s : State) (name : String) (offset : Nat) :
    Indifferent (endElement x s name offset) := by
  unfold endElement
  with_reducible repeat' first
    | exact .pure _
    | exact indifferent_fail _ _
    | exact indifferent_close _ _
    | refine .bind ?_ fun _ => ?_
    | split

theorem indifferent_readMarkup
    (hi : ∀ parent target origin mark, Indifferent (x.includeUnit parent target origin mark))
    (s : State) (e : Markup.Located) : Indifferent (readMarkup x s e) := by
  unfold readMarkup
  with_reducible repeat' first
    | exact .pure _
    | exact indifferent_fail _ _
    | exact indifferent_flush _
    | exact indifferent_startElement hi _ _ _ _
    | exact indifferent_endElement _ _ _
    | exact indifferent_addComment _ _ _
    | refine .bind ?_ fun _ => ?_
    | split

theorem indifferent_slice (start stop : Nat) : Indifferent (x.slice start stop) := by
  unfold Context.slice
  split
  · exact .pure _
  · exact indifferent_fail _ _

theorem indifferent_readEnd (s : State) (stop : Nat) : Indifferent (readEnd x s stop) := by
  unfold readEnd
  split
  · exact .bind (indifferent_slice _ _) fun _ => .pure _
  · exact .pure _

theorem indifferent_readDocument
    (hi : ∀ parent target origin mark, Indifferent (x.includeUnit parent target origin mark))
    (d : Markup.Document) : Indifferent (readDocument x d) := by
  have hevent : ∀ s e, Indifferent (readEvent x s e) := by
    intro s e
    unfold readEvent
    split
    · refine .bind (indifferent_slice _ _) fun _ => ?_
      split
      · exact .pure _
      · exact indifferent_readMarkup hi s e
    · exact indifferent_readMarkup hi s e
  unfold readDocument
  with_reducible repeat' first
    | exact .pure _
    | exact .foldlM hevent _
    | exact indifferent_fail _ _
    | exact indifferent_readEnd _ _
    | exact indifferent_flush _
    | refine .bind ?_ fun _ => ?_
    | split

end Strict

namespace Page

open Builder

variable {o : Options} {loader : Loader}

theorem indifferent_includeUnit {reader : UnitReader}
    (hr : ∀ root unit text form, Indifferent (reader root unit text form))
    (parent : NodeId) (target : String) (origin : UnitOrigin) (mark : Mark) :
    Indifferent (includeUnit o loader reader parent target origin mark) := by
  unfold includeUnit enterUnit
  with_reducible repeat' first
    | exact .pure _
    | exact indifferent_invalidDirective _ _
    | exact indifferent_placeError _ _
    | exact indifferent_modifyTree _
    | exact indifferent_modifyBindings _
    | exact indifferent_append _ _
    | exact hr _ _ _ _
    | refine .get_bind (fun _ _ => rfl) fun _ => ?_
    | refine .bind ?_ fun _ => ?_
    | split

-- By induction on how deep units may still include each other.
theorem indifferent_readUnit (o : Options) (loader : Loader) (depth : Nat) (root : NodeId)
    (unit : String) (text : List Char) (form : UnitForm) :
    Indifferent (readUnit o loader depth root unit text form) := by
  induction depth generalizing root unit text form with
  | zero => exact indifferent_invalidDirective _ _
  | succ depth ih =>
    have hi : ∀ parent target origin mark, Indifferent
        (includeUnit o loader (readUnit o loader depth) parent target origin mark) :=
      indifferent_includeUnit ih
    have hunits : ∀ names, Indifferent (modify fun b : Builder => { b with units := names }) :=
      fun _ => .of_modify fun _ v => ⟨v, rfl⟩
    show Indifferent (readLevel o loader (readUnit o loader depth) root unit text form)
    unfold readLevel
    refine .get_bind (fun _ _ => rfl) fun b => .bind (hunits _) fun _ => ?_
    cases form with
    | relaxed => exact .bind (Relaxed.indifferent_run hi _ _ _) fun _ => hunits _
    | strict => exact .bind (Strict.indifferent_readDocument hi _) fun _ => hunits _

theorem indifferent_readUnits {reader : UnitReader}
    (hr : ∀ root unit text form, Indifferent (reader root unit text form)) (unit : String)
    (text : List Char) (form : UnitForm) :
    Indifferent (readUnits o loader reader unit text form) := by
  have hnames : ∀ origin (names : List String), Indifferent (forIn names PUnit.unit fun name _ => do
      discard (includeUnit o loader reader Tree.root name origin (.start unit))
      pure (ForInStep.yield PUnit.unit) : BuildM PUnit) := fun origin names =>
    .forIn (fun name _ => .bind (.discard (indifferent_includeUnit hr _ _ _ _)) fun _ => .pure _) _
  exact .bind (hnames _ _) fun _ => .bind (hr _ _ _ _) fun _ => .bind (hnames _ _) fun _ => .pure _

theorem readUnit_trim (o : Options) (loader : Loader) (v : Bool) (depth : Nat) :
    readUnit { o with trimDirectiveWhitespaces := v } loader depth = readUnit o loader depth := by
  induction depth with
  | zero => rfl
  | succ depth ih =>
    rw [readUnit, readUnit, ih]
    rfl

variable {resolver : Resolver} {name : String} {b : Builder}

-- The units of a page are read in the same way where blanks are trimmed and where they are not.
theorem ReadTo.of_trim (h : ReadTo o loader resolver name b) (v : Bool) :
    ∃ w, ReadTo { o with trimDirectiveWhitespaces := v } loader resolver name
      { b with trimBlanks := w } := by
  obtain ⟨data, text, hloaded, hname, horigin, hparent, hread⟩ := h
  obtain ⟨w, hw⟩ := indifferent_readUnits (indifferent_readUnit o loader _) _ _ _ v hread
  refine ⟨w, data, text, ⟨hloaded.load, hloaded.form_eq⟩, hname, horigin, hparent, ?_⟩
  rw [readUnit_trim]
  exact hw

-- What they bind does not depend on it either.
theorem bindings_of_finish {page page' : Page} {b₁ b₂ : Builder} {w : Bool}
    (h : finish b = .ok page b₁) (h' : finish { b with trimBlanks := w } = .ok page' b₂) :
    page'.bindings = page.bindings := by
  have hloop : Indifferent (forIn b.bindings.spaces PUnit.unit fun space _ => do
      discard (libraryOf space.1 space.2.mark)
      pure (ForInStep.yield PUnit.unit) : BuildM PUnit) :=
    .forIn (fun space _ => .bind (.discard (indifferent_libraryOf _ _)) fun _ => .pure _) _
  unfold finish at h h'
  obtain ⟨_, _, hget, h⟩ := BuildM.bind_eq_ok.mp h
  cases hget
  obtain ⟨_, _, hget, h'⟩ := BuildM.bind_eq_ok.mp h'
  cases hget
  obtain ⟨_, s, hs, h⟩ := BuildM.bind_eq_ok.mp h
  obtain ⟨_, s', hs', h'⟩ := BuildM.bind_eq_ok.mp h'
  obtain ⟨w', hw'⟩ := hloop w hs
  have hs' := hw'.symm.trans hs'
  cases hs'
  cases h
  cases h'
  rfl

end Page
end PageCompiler
