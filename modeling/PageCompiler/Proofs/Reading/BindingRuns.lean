import PageCompiler.Proofs.Reading.BindingSteps
import PageCompiler.Proofs.Reading.Pages

namespace PageCompiler

open Builder (Run Step)

-- When it comes to an end without a failure, it has gone by steps.
def Follows (loader : Loader) {α : Type} (m : BuildM α) : Prop :=
  ∀ ⦃b : Builder⦄ ⦃a : α⦄ ⦃b' : Builder⦄, m b = .ok a b' → ∃ acts, Run loader b acts b'

namespace Follows

variable {loader : Loader} {α β : Type}

theorem of_same {m : BuildM α} (h : ∀ {b a b'}, m b = .ok a b' → b' = b) : Follows loader m := by
  intro b a b' hm
  rw [h hm]
  exact ⟨[], .refl b⟩

theorem of_step {m : BuildM α} (h : ∀ {b a b'}, m b = .ok a b' → ∃ acts, Step loader b acts b') :
    Follows loader m := by
  intro b a b' hm
  obtain ⟨acts, hstep⟩ := h hm
  exact ⟨acts, .single hstep⟩

theorem pure (a : α) : Follows loader (Pure.pure a : BuildM α) := of_same fun h => by
  cases h
  rfl

theorem get : Follows loader (MonadState.get : BuildM Builder) := of_same fun h => by
  cases h
  rfl

theorem throw (d : Diagnostic) : Follows loader (MonadExcept.throw d : BuildM α) := by
  rintro b a b' ⟨⟩

theorem bind {m : BuildM α} {f : α → BuildM β} (hm : Follows loader m)
    (hf : ∀ a, Follows loader (f a)) : Follows loader (m >>= f) := by
  intro b c b' h
  obtain ⟨a, s, hs, h⟩ := BuildM.bind_eq_ok.mp h
  obtain ⟨acts, hfirst⟩ := hm hs
  obtain ⟨more, hrest⟩ := hf a h
  exact ⟨acts ++ more, hfirst.trans hrest⟩

theorem map {m : BuildM α} (f : α → β) (hm : Follows loader m) : Follows loader (f <$> m) :=
  hm.bind fun a => pure (f a)

theorem discard {m : BuildM α} (hm : Follows loader m) : Follows loader (Functor.discard m) :=
  hm.map _

theorem of_mode {f : Builder → Builder} (h : ∀ b : Builder, (f b).tree = b.tree ∧
    (f b).bindings = b.bindings ∧ (f b).resolver = b.resolver) : Follows loader (modify f) :=
  of_step fun {b a b'} hm => by
    cases hm
    obtain ⟨htree, hbindings, hresolver⟩ := h b
    exact ⟨[], .mode htree hbindings hresolver⟩

theorem forIn {l : List α} {f : α → β → BuildM (ForInStep β)}
    (hf : ∀ a ∈ l, ∀ c, Follows loader (f a c)) (init : β) :
    Follows loader (forIn l init f) := by
  induction l generalizing init with
  | nil => exact pure init
  | cons a l ih =>
    rw [List.forIn_cons]
    refine (hf a (List.mem_cons_self ..) init).bind fun r => ?_
    cases r with
    | done c => exact pure c
    | yield c => exact ih (fun a ha => hf a (List.mem_cons_of_mem _ ha)) c

theorem foldlM {l : List α} {f : β → α → BuildM β} (hf : ∀ c a, Follows loader (f c a))
    (init : β) : Follows loader (l.foldlM f init) := by
  induction l generalizing init with
  | nil => exact pure init
  | cons a l ih =>
    rw [List.foldlM_cons]
    exact (hf init a).bind ih

end Follows

namespace Builder

variable {loader : Loader} {b b' : Builder} {mark : Mark}

theorem follows_fail {α : Type} (fault : Fault) (mark : Mark) :
    Follows loader (fail fault mark : BuildM α) :=
  .bind .get fun _ => .throw _

theorem follows_modifyTree {f : Tree → Tree} (h : ∀ t : Tree, t.Alike (f t)) :
    Follows loader (modifyTree f) :=
  .of_step fun {b a b'} hm => by
    cases hm
    exact ⟨[], .tidy (h b.tree)⟩

-- Behind it the prefix is bound to the library, whether it has been bound before or not.
theorem bindSpace_step {space : String} {ref : LibraryRef} {u : Unit}
    (h : bindSpace space ref mark b = .ok u b') : ∃ acts, Step loader b acts b' ∧
      ∃ m, b'.bindings.get? space = some ⟨ref, m⟩ := by
  unfold bindSpace at h
  split at h
  · obtain ⟨_, _, hfail, -⟩ := BuildM.bind_eq_ok.mp h
    exact absurd hfail fail_ne_ok
  · obtain ⟨_, _, hget, h⟩ := BuildM.bind_eq_ok.mp h
    cases hget
    cases hbound : b.bindings.get? space with
    | none =>
      simp only [hbound] at h
      cases h
      exact ⟨_, .bind ref mark hbound, mark, Bindings.get?_bind_self hbound⟩
    | some earlier =>
      simp only [hbound] at h
      split at h
      · rename_i hsame
        cases h
        exact ⟨_, .again hbound, earlier.mark, by rw [hbound, ← hsame]⟩
      · exact absurd h fail_ne_ok

theorem follows_bindSpace (space : String) (ref : LibraryRef) (mark : Mark) :
    Follows loader (bindSpace space ref mark) :=
  .of_step fun h => (bindSpace_step h).imp fun _ => And.left

-- The library of a prefix is the one that is found for it from then on.
theorem libraryOf_run (loader : Loader) {space : String} {library : Library}
    (h : libraryOf space mark b = .ok library b') : (∃ acts, Run loader b acts b') ∧
      b'.bindings.library? space = some library ∧ b'.bindings.bound = b.bindings.bound := by
  unfold libraryOf at h
  obtain ⟨_, _, hget, h⟩ := BuildM.bind_eq_ok.mp h
  cases hget
  cases hbound : b.bindings.get? space with
  | none =>
    simp only [hbound] at h
    exact absurd h fail_ne_ok
  | some binding =>
    simp only [hbound] at h
    cases hknown : b.bindings.libraries.lookup binding.ref.key with
    | some known =>
      simp only [hknown] at h
      cases h
      exact ⟨⟨[], .refl b⟩, Bindings.library?_eq_some.mpr ⟨binding, hbound, hknown⟩, rfl⟩
    | none =>
      simp only [hknown] at h
      obtain ⟨found, b₁, hresolve, h⟩ := BuildM.bind_eq_ok.mp h
      obtain ⟨hasked, rfl⟩ := resolve_eq_ok hresolve
      cases found with
      | none => exact absurd h fail_ne_ok
      | some found =>
        obtain ⟨_, b₂, hadd, h⟩ := BuildM.bind_eq_ok.mp h
        cases hadd
        cases h
        have hstep : Step loader b _ _ := .resolve hknown hasked
        refine ⟨⟨_, .single hstep⟩, Bindings.library?_eq_some.mpr ⟨binding, ?_, ?_⟩, ?_⟩
        · exact hstep.extends.get? hbound
        · rw [Bindings.libraries_addLibrary, List.lookup_append, hknown, Option.none_or,
            List.lookup_cons_self]
        · exact Bindings.bound_addLibrary _ _ _

theorem follows_bindNamespace (space : String) (ref : LibraryRef) (mark : Mark) :
    Follows loader (bindNamespace space ref mark) := by
  intro b bound b' h
  unfold bindNamespace at h
  obtain ⟨_, _, hget, h⟩ := BuildM.bind_eq_ok.mp h
  cases hget
  split at h
  · rename_i hnew
    rw [Option.isNone_iff_eq_none] at hnew
    obtain ⟨found, b₁, hresolve, h⟩ := BuildM.bind_eq_ok.mp h
    obtain ⟨hasked, rfl⟩ := resolve_eq_ok hresolve
    cases found with
    | none =>
      cases h
      exact ⟨_, .single (.miss hnew hasked)⟩
    | some library =>
      obtain ⟨_, b₂, hadd, h⟩ := BuildM.bind_eq_ok.mp h
      cases hadd
      have hfirst : Run loader b _ _ := .single (.resolve hnew hasked)
      obtain ⟨more, hrest⟩ := ((follows_bindSpace space ref mark).bind fun _ => .pure true) h
      exact ⟨_, hfirst.trans hrest⟩
  · exact ((follows_bindSpace space ref mark).bind fun _ => .pure true) h

theorem append_step {parent id : NodeId} {n : Node} (h : append parent n b = .ok id b')
    (hn : n.Backed loader b.bindings) : Step loader b [] b' := by
  obtain ⟨-, rfl⟩ := append_eq_ok h
  exact .node parent hn

theorem follows_append {parent : NodeId} {n : Node} (hroot : n.kind.root? = none)
    (hcustom : n.kind.custom? = none) (htaglib : n.kind ≠ .taglibDirective) :
    Follows loader (append parent n) :=
  .of_step fun h => ⟨[], append_step h (Node.backed_of_plain hroot hcustom htaglib)⟩

theorem plain_of_mem_partNodes (mark : Mark) (text : List Char) (consumed : Nat)
    (parts : List Part) : ∀ n ∈ partNodes mark text consumed parts, n.kind.root? = none ∧
      n.kind.custom? = none ∧ n.kind ≠ .taglibDirective := by
  fun_induction partNodes mark text consumed parts with
  | case1 => simp
  | case2 consumed value parts ih => simpa [NodeKind.root?, NodeKind.custom?] using ih
  | case3 _ dialect source tree offset parts ih =>
    simpa [NodeKind.root?, NodeKind.custom?] using ih

theorem follows_addText (parent : NodeId) (text : List Char) (mark : Mark) :
    Follows loader (addText parent text mark) := by
  unfold addText
  split
  · exact .pure _
  · refine .bind .get fun b => ?_
    split
    · exact follows_fail _ _
    · refine .bind (.forIn (fun n hn _ => ?_) _) fun _ => .pure _
      obtain ⟨hroot, hcustom, htaglib⟩ := plain_of_mem_partNodes mark text 0 _ n hn
      exact .bind (.discard (follows_append hroot hcustom htaglib)) fun _ => .pure _

theorem follows_addVerbatim (parent : NodeId) (text : List Char) (mark : Mark) :
    Follows loader (addVerbatim parent text mark) := by
  unfold addVerbatim
  split
  · exact .pure _
  · exact .discard (follows_append rfl rfl (by simp))

theorem follows_addComment (parent : NodeId) (text : List Char) (mark : Mark) :
    Follows loader (addComment parent text mark) :=
  .discard (follows_append rfl rfl (by simp))

theorem follows_addScript (parent : NodeId) (kind : ScriptKind) (code : Script) (mark : Mark) :
    Follows loader (addScript parent kind code mark) :=
  follows_append rfl rfl (by simp)

theorem follows_checkDistinct (action : String) (attrs : List Attribute) :
    Follows loader (checkDistinct action attrs) := .of_same checkDistinct_eq_ok

theorem required_eq_ok {action name value : String} {attrs : List Attribute}
    (h : required action attrs name mark b = .ok value b') :
    Attribute.find? attrs name = some value ∧ b' = b := by
  unfold required at h
  cases hfound : Attribute.find? attrs name with
  | none =>
    rw [hfound] at h
    exact absurd h fail_ne_ok
  | some v =>
    rw [hfound] at h
    cases h
    exact ⟨rfl, rfl⟩

theorem follows_required (action : String) (attrs : List Attribute) (name : String) (mark : Mark) :
    Follows loader (required action attrs name mark) := .of_same fun h => (required_eq_ok h).2

theorem libraryRef_eq_ok {attrs : List Attribute} {ref : LibraryRef}
    (h : libraryRef attrs mark b = .ok ref b') : ref.NamedBy attrs ∧ b' = b := by
  unfold libraryRef at h
  cases huri : Attribute.find? attrs "uri" <;> cases hdirectory : Attribute.find? attrs "tagdir" <;>
    rw [huri, hdirectory] at h
  · exact absurd h fail_ne_ok
  · cases h
    exact ⟨hdirectory, rfl⟩
  · cases h
    exact ⟨huri, rfl⟩
  · exact absurd h fail_ne_ok

theorem applyPageAttributes_mode (b : Builder) (attrs : List Attribute) :
    (attrs.foldl applyPageAttribute b).tree = b.tree ∧
      (attrs.foldl applyPageAttribute b).bindings = b.bindings ∧
      (attrs.foldl applyPageAttribute b).resolver = b.resolver := by
  induction attrs generalizing b with
  | nil => exact ⟨rfl, rfl, rfl⟩
  | cons a attrs ih =>
    obtain ⟨htree, hbindings, hresolver⟩ := ih (applyPageAttribute b a)
    have hone : (applyPageAttribute b a).tree = b.tree ∧
        (applyPageAttribute b a).bindings = b.bindings ∧
        (applyPageAttribute b a).resolver = b.resolver := by
      unfold applyPageAttribute
      split <;> exact ⟨rfl, rfl, rfl⟩
    exact ⟨htree.trans hone.1, hbindings.trans hone.2.1, hresolver.trans hone.2.2⟩

-- A directive that names a library is made when its prefix has been bound to the library.
theorem follows_taglib (parent : NodeId) (action : String) (attrs : List Attribute) (mark : Mark) :
    Follows loader (do
      let space ← required action attrs "prefix" mark
      let ref ← libraryRef attrs mark
      bindSpace space ref mark
      append parent { kind := .taglibDirective, mark, name := action, attributes := attrs }) := by
  intro b id b' h
  obtain ⟨space, b₁, hrequired, h₁⟩ := BuildM.bind_eq_ok.mp h
  obtain ⟨ref, b₂, hread, h₂⟩ := BuildM.bind_eq_ok.mp h₁
  obtain ⟨_, b₃, hbind, happend⟩ := BuildM.bind_eq_ok.mp h₂
  obtain ⟨hspace, rfl⟩ := required_eq_ok hrequired
  obtain ⟨href, rfl⟩ := libraryRef_eq_ok hread
  obtain ⟨acts, hstep, m, hbound⟩ := bindSpace_step hbind
  refine ⟨_, (Run.single hstep).tail (append_step happend ?_)⟩
  exact ⟨fun _ hdata => (nomatch hdata), fun _ hdata => (nomatch hdata),
    fun _ => ⟨space, _, hspace, hbound, href⟩⟩

theorem follows_addDirective {includeUnit : Includer}
    (hi : ∀ parent target origin mark, Follows loader (includeUnit parent target origin mark))
    (parent : NodeId) (name : String) (attrs : List Attribute) (mark : Mark) :
    Follows loader (addDirective includeUnit parent name attrs mark) := by
  unfold addDirective
  refine .bind (follows_checkDistinct _ _) fun _ => ?_
  split
  · exact .bind (.of_mode fun b => applyPageAttributes_mode b attrs) fun _ =>
      follows_append rfl rfl (by simp)
  · exact follows_taglib parent _ attrs mark
  · exact .bind (follows_required _ _ _ _) fun file =>
      .bind (follows_append rfl rfl (by simp)) fun id =>
        .bind (.discard (hi _ _ _ _)) fun _ => .pure _
  all_goals exact follows_fail _ _

theorem follows_standardKind (parent : NodeId) (name : String) (attrs : List Attribute)
    (mark : Mark) (form : UnitForm) :
    Follows loader (standardKind parent name attrs mark form) := by
  unfold standardKind
  split
  case h_13 => exact .bind (follows_required _ _ _ _) fun _ => .pure _
  case h_14 =>
    split
    · exact .pure _
    · exact follows_fail _ _
  case h_15 =>
    refine .bind .get fun b => ?_
    split
    · exact .pure _
    · exact follows_fail _ _
  case h_16 => exact follows_fail _ _
  all_goals exact .pure _

-- The library of a custom action is the one that is found for its prefix.
theorem customKind_run (loader : Loader) {parent : NodeId} {space name : String} {kind : NodeKind}
    (h : customKind parent space name mark b = .ok kind b') : (∃ acts, Run loader b acts b') ∧
      ∃ data, kind = .custom data ∧ b'.bindings.library? data.space = some data.library ∧
        data.uri = data.library.uri := by
  unfold customKind at h
  obtain ⟨library, b₁, hlibrary, h⟩ := BuildM.bind_eq_ok.mp h
  obtain ⟨hrun, hknown, -⟩ := libraryOf_run loader hlibrary
  cases htag : library.tag? name with
  | none =>
    rw [htag] at h
    exact absurd h fail_ne_ok
  | some tag =>
    rw [htag] at h
    obtain ⟨_, _, hget, h⟩ := BuildM.bind_eq_ok.mp h
    cases hget
    cases h
    exact ⟨hrun, _, rfl, hknown, rfl⟩

theorem follows_startAction (parent : NodeId) (name : String) (attrs : List Attribute)
    (mark : Mark) (form : UnitForm) :
    Follows loader (startAction parent name attrs mark form) := by
  unfold startAction
  refine .bind (follows_checkDistinct _ _) fun _ => ?_
  intro b id b' h
  dsimp only at h
  split at h
  · obtain ⟨kind, b₁, hkind, h⟩ := BuildM.bind_eq_ok.mp h
    obtain ⟨haction, hcustom⟩ := standardKind_spec hkind
    obtain ⟨acts, hrun⟩ : ∃ acts, Run loader b acts b₁ := follows_standardKind _ _ _ _ _ hkind
    have htaglib : kind ≠ .taglibDirective := by
      rintro rfl
      rcases haction with haction | haction <;> cases haction
    exact ⟨_, hrun.tail (append_step h
      (Node.backed_of_plain haction.spec.1 hcustom htaglib))⟩
  · obtain ⟨kind, b₁, hkind, h⟩ := BuildM.bind_eq_ok.mp h
    obtain ⟨⟨acts, hrun⟩, data, rfl, hknown, huri⟩ := customKind_run loader hkind
    refine ⟨_, hrun.tail (append_step h ⟨fun _ hdata => (nomatch hdata), ?_, by simp⟩)⟩
    rintro _ ⟨⟩
    exact ⟨hknown, huri⟩

theorem follows_openBody (id : NodeId) : Follows loader (modifyTree (·.openBody id)) :=
  follows_modifyTree fun t => Tree.alike_openBody t id

theorem follows_finishElement (id : NodeId) : Follows loader (finishElement id) := by
  have hblanks : Follows loader (modifyTree (removeBlanks · id)) :=
    follows_modifyTree fun t => alike_removeBlanks t id
  have htrim : Follows loader (modifyTree (trimBody · id)) :=
    follows_modifyTree fun t => alike_trimBody t id
  unfold finishElement
  with_reducible repeat' first
    | exact hblanks
    | exact htrim
    | exact .pure _
    | exact .get
    | exact follows_fail _ _
    | refine .bind ?_ fun _ => ?_
    | split
    | dsimp only

end Builder

namespace Relaxed

open Builder

variable {loader : Loader} {includeUnit : Includer}

theorem follows_readAttributes (ends : List String) (start : Mark) (c : Cursor) :
    Follows loader (readAttributes ends start c) := .of_same fun h => (readAttributes_eq_ok h).1

theorem follows_rejectScript (s : State) (construct : String) (mark : Mark) :
    Follows loader (rejectScript s construct mark) := .of_same rejectScript_eq_ok

theorem follows_readThrough (delimiter construct : String) (mark : Mark) (c : Cursor) :
    Follows loader (readThrough delimiter construct mark c) :=
  .of_same fun h => (readThrough_eq_ok h).1

theorem follows_readBody (name : String) (mark : Mark) (c : Cursor) :
    Follows loader (readBody name mark c) := .of_same fun h => (readBody_eq_ok h).1

theorem follows_readDirectiveName (mark : Mark) (c : Cursor) :
    Follows loader (readDirectiveName mark c) := .of_same fun h => (readDirectiveName_eq_ok h).1

theorem follows_readText (s : State) : Follows loader (readText s) :=
  .of_same fun h => (readText_eq_ok h).1

theorem follows_readAction (s : State) (parent : NodeId) (name : String) (mark : Mark)
    (c : Cursor) : Follows loader (readAction s parent name mark c) := by
  unfold readAction
  refine .bind (follows_readAttributes _ _ _) fun tag => ?_
  refine .bind (follows_startAction _ _ _ _ _) fun id => ?_
  split
  · exact .bind (follows_finishElement _) fun _ => .pure _
  · refine .bind (follows_openBody _) fun _ => .bind .get fun b => ?_
    split
    · exact .bind (follows_readBody _ _ _) fun _ => .bind (follows_addVerbatim _ _ _) fun _ =>
        .bind (follows_finishElement _) fun _ => .pure _
    · exact .pure _

theorem follows_readConstruct
    (hi : ∀ parent target origin mark, Follows loader (includeUnit parent target origin mark))
    (s : State) (parent : NodeId) (kind : Construct) (mark : Mark) (c : Cursor) :
    Follows loader (readConstruct includeUnit s parent kind mark c) := by
  unfold readConstruct
  with_reducible repeat' first
    | exact .pure _
    | exact follows_fail _ _
    | exact follows_readThrough _ _ _ _
    | exact follows_readDirectiveName _ _
    | exact follows_readAttributes _ _ _
    | exact follows_rejectScript _ _ _
    | exact follows_readBody _ _ _
    | exact follows_addComment _ _ _
    | exact follows_addText _ _ _
    | exact follows_readAction _ _ _ _ _
    | exact follows_startAction _ _ _ _ _
    | exact follows_finishElement _
    | exact follows_openBody _
    | exact .discard (follows_addDirective hi _ _ _ _)
    | exact .discard (follows_addScript _ _ _ _)
    | refine .bind ?_ fun _ => ?_
    | split
    | dsimp only

theorem follows_step
    (hi : ∀ parent target origin mark, Follows loader (includeUnit parent target origin mark))
    (root : NodeId) (s : State) : Follows loader (step includeUnit root s) := by
  unfold step
  with_reducible repeat' first
    | exact .pure _
    | exact .get
    | exact follows_fail _ _
    | exact follows_addText _ _ _
    | exact follows_finishElement _
    | exact .map _ (follows_readConstruct hi _ _ _ _ _)
    | exact .map _ (follows_readText _)
    | refine .bind ?_ fun _ => ?_
    | split
    | dsimp only [flush]

-- By induction on the steps that are left.
theorem follows_run
    (hi : ∀ parent target origin mark, Follows loader (includeUnit parent target origin mark))
    (root : NodeId) (fuel : Nat) (s : State) : Follows loader (run includeUnit root fuel s) := by
  induction fuel generalizing s with
  | zero => exact .pure _
  | succ fuel ih =>
    refine .bind (follows_step hi root s) fun next => ?_
    cases next with
    | none => exact .pure _
    | some s' => exact ih s'

end Relaxed

namespace Strict

open Builder

variable {loader : Loader} {x : Context}

theorem follows_flush (s : State) : Follows loader (flush x s) := by
  unfold flush
  with_reducible repeat' first
    | exact .pure _
    | exact .get
    | exact follows_fail _ _
    | exact follows_addText _ _ _
    | exact follows_addVerbatim _ _ _
    | refine .bind ?_ fun _ => ?_
    | split
    | dsimp only

theorem follows_readAttributes (inside : List Char) (mark : Mark) :
    Follows loader (readAttributes inside mark) := .of_same fun h => (readAttributes_eq_ok h).1

theorem follows_declareOne (mark : Mark) (d : Declared) (a : Attribute) :
    Follows loader (declareOne mark d a) := by
  unfold declareOne
  with_reducible repeat' first
    | exact .pure _
    | exact follows_bindSpace _ _ _
    | exact follows_bindNamespace _ _ _
    | refine .bind ?_ fun _ => ?_
    | split

theorem follows_startStandard
    (hi : ∀ parent target origin mark, Follows loader (x.includeUnit parent target origin mark))
    (parent : NodeId) (name : String) (attrs : List Attribute) (mark : Mark) (hasBody : Bool) :
    Follows loader (startStandard x parent name attrs mark hasBody) := by
  unfold startStandard
  with_reducible repeat' first
    | exact .pure _
    | exact follows_fail _ _
    | exact follows_addDirective hi _ _ _ _
    | exact follows_addScript _ _ _ _
    | exact follows_startAction _ _ _ _ _
    | refine .bind ?_ fun _ => ?_
    | split

theorem follows_close (id : NodeId) (content : Content) : Follows loader (close id content) := by
  unfold close
  refine .bind .get fun b => ?_
  split
  · exact .pure _
  · exact follows_finishElement _

theorem follows_startElement
    (hi : ∀ parent target origin mark, Follows loader (x.includeUnit parent target origin mark))
    (s : State) (inside : List Char) (offset : Nat) (hasBody : Bool) :
    Follows loader (startElement x s inside offset hasBody) := by
  unfold startElement
  with_reducible repeat' first
    | exact .pure _
    | exact .get
    | exact follows_readAttributes _ _
    | exact .foldlM (follows_declareOne _) _
    | exact follows_startStandard hi _ _ _ _ _
    | exact follows_startAction _ _ _ _ _
    | exact follows_append rfl rfl (by simp)
    | exact follows_openBody _
    | exact follows_close _ _
    | refine .bind ?_ fun _ => ?_
    | split
    | dsimp only [declare]

theorem follows_endElement (s : State) (name : String) (offset : Nat) :
    Follows loader (endElement x s name offset) := by
  unfold endElement
  with_reducible repeat' first
    | exact .pure _
    | exact follows_fail _ _
    | exact follows_close _ _
    | refine .bind ?_ fun _ => ?_
    | split

theorem follows_readMarkup
    (hi : ∀ parent target origin mark, Follows loader (x.includeUnit parent target origin mark))
    (s : State) (e : Markup.Located) : Follows loader (readMarkup x s e) := by
  unfold readMarkup
  with_reducible repeat' first
    | exact .pure _
    | exact follows_fail _ _
    | exact follows_flush _
    | exact follows_startElement hi _ _ _ _
    | exact follows_endElement _ _ _
    | exact follows_addComment _ _ _
    | refine .bind ?_ fun _ => ?_
    | split

theorem follows_slice (start stop : Nat) : Follows loader (x.slice start stop) := by
  unfold Context.slice
  split
  · exact .pure _
  · exact follows_fail _ _

theorem follows_readEnd (s : State) (stop : Nat) : Follows loader (readEnd x s stop) := by
  unfold readEnd
  split
  · exact .bind (follows_slice _ _) fun _ => .pure _
  · exact .pure _

theorem follows_readDocument
    (hi : ∀ parent target origin mark, Follows loader (x.includeUnit parent target origin mark))
    (d : Markup.Document) : Follows loader (readDocument x d) := by
  have hevent : ∀ s e, Follows loader (readEvent x s e) := by
    intro s e
    unfold readEvent
    split
    · refine .bind (follows_slice _ _) fun _ => ?_
      split
      · exact .pure _
      · exact follows_readMarkup hi s e
    · exact follows_readMarkup hi s e
  unfold readDocument
  with_reducible repeat' first
    | exact .pure _
    | exact .foldlM hevent _
    | exact follows_fail _ _
    | exact follows_readEnd _ _
    | exact follows_flush _
    | refine .bind ?_ fun _ => ?_
    | split

end Strict

namespace Page

open Builder

variable {o : Options} {loader : Loader}

-- A reader of units goes by steps.
def FollowsUnits (loader : Loader) (reader : UnitReader) : Prop :=
  ∀ root unit text form, Follows loader (reader root unit text form)

-- The root of a unit is made when the page depends on the unit.
theorem follows_enterUnit (parent : NodeId) (target : String) (origin : UnitOrigin) (mark : Mark) :
    Follows loader (enterUnit o loader parent target origin mark) := by
  intro b entered b' h
  unfold enterUnit at h
  obtain ⟨_, _, hget, h₁⟩ := BuildM.bind_eq_ok.mp h
  cases hget
  obtain ⟨_, _, hget, h₂⟩ := BuildM.bind_eq_ok.mp h₁
  cases hget
  dsimp only at h₂
  split at h₂
  · obtain ⟨_, _, hfail, -⟩ := BuildM.bind_eq_ok.mp h₂
    exact absurd hfail fail_ne_ok
  · obtain ⟨bytes, b₁, hload, h₃⟩ := BuildM.bind_eq_ok.mp h₂
    obtain ⟨decoded, b₂, hdecode, h₄⟩ := BuildM.bind_eq_ok.mp h₃
    obtain ⟨_, b₃, hsource, h₅⟩ := BuildM.bind_eq_ok.mp h₄
    obtain ⟨_, b₄, hdepend, h₆⟩ := BuildM.bind_eq_ok.mp h₅
    obtain ⟨_, _, hget, h₇⟩ := BuildM.bind_eq_ok.mp h₆
    cases hget
    obtain ⟨root, b₅, happend, h₈⟩ := BuildM.bind_eq_ok.mp h₇
    cases h₈
    obtain ⟨-, rfl⟩ := placeError_eq_ok hload
    obtain ⟨-, rfl⟩ := placeError_eq_ok hdecode
    have hsourced : Step loader b₂ [] b₃ := by
      cases hsource
      exact .tidy (Tree.alike_addSource _ _ _)
    have hdepends : Step loader b₃ [] b₄ := by
      cases hdepend
      exact .depend _ _
    refine ⟨_, ((Run.single hsourced).tail hdepends).tail (append_step happend ⟨?_, ?_, by simp⟩)⟩
    · rintro _ ⟨⟩
      cases hdepend
      exact Bindings.mem_addDependency.mpr (.inr rfl)
    · exact fun _ hdata => nomatch hdata

theorem follows_includeUnit {reader : UnitReader} (hr : FollowsUnits loader reader)
    (parent : NodeId) (target : String) (origin : UnitOrigin) (mark : Mark) :
    Follows loader (includeUnit o loader reader parent target origin mark) := by
  unfold includeUnit
  exact .bind (follows_enterUnit _ _ _ _) fun entered => .bind (hr _ _ _ _) fun _ => .pure _

theorem follows_readLevel {inner : UnitReader} (hinner : FollowsUnits loader inner) :
    FollowsUnits loader (readLevel o loader inner) := by
  intro root unit text form
  have hi := follows_includeUnit (o := o) hinner
  unfold readLevel
  refine .bind .get fun b => .bind (.of_mode fun _ => ⟨rfl, rfl, rfl⟩) fun _ => ?_
  cases form with
  | relaxed => exact .bind (Relaxed.follows_run hi _ _ _) fun _ => .of_mode fun _ => ⟨rfl, rfl, rfl⟩
  | strict =>
    exact .bind (Strict.follows_readDocument hi _) fun _ => .of_mode fun _ => ⟨rfl, rfl, rfl⟩

-- By induction on how deep units may still include each other.
theorem follows_readUnit (o : Options) (loader : Loader) (depth : Nat) :
    FollowsUnits loader (readUnit o loader depth) := by
  induction depth with
  | zero => exact fun _ _ _ _ => follows_fail _ _
  | succ depth ih => exact follows_readLevel ih

end Page
end PageCompiler
