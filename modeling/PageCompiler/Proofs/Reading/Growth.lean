import PageCompiler.Proofs.Expression.SourceText
import PageCompiler.Proofs.Page.Likeness
import PageCompiler.Proofs.Reading.Sequence

namespace PageCompiler

open PageCompiler.Tree

namespace NodeKind

-- The kind of an element that is read as an action.
def OfElement (kind : NodeKind) : Prop := kind = .xmlRoot ∨ kind.isAction

theorem OfElement.spec {kind : NodeKind} (h : kind.OfElement) :
    kind.root? = none ∧ kind.run? = none ∧ kind ≠ .pageDirective ∧
      ∀ data, kind ≠ .insert data := by
  rcases h with rfl | h
  · exact ⟨rfl, rfl, by simp, by simp⟩
  · cases kind <;> first | exact absurd h Bool.false_ne_true | exact ⟨rfl, rfl, by simp, by simp⟩

end NodeKind

namespace Builder

variable {b b' b'' : Builder} {id : Nat}

-- The tree has grown, and the same units are being read.
structure Advances (b b' : Builder) : Prop where
  grows : Grows b.tree b'.tree
  units_eq : b'.units = b.units

theorem Advances.refl (b : Builder) : Advances b b := ⟨.refl, rfl⟩

theorem Advances.trans (h : Advances b b') (h' : Advances b' b'') : Advances b b'' :=
  ⟨h.grows.trans h'.grows, h'.units_eq.trans h.units_eq⟩

-- A node of the unit that is being read, under which nodes can be put.
structure Inside (b : Builder) (id : NodeId) : Prop where
  lt_size : id < b.tree.size
  not_text : (b.tree.kind id).run? = none
  units_eq : b.tree.unitsAround id = b.units

theorem Inside.advance (h : Inside b id) (ha : Advances b b') : Inside b' id := by
  have hkeeps := ha.grows.keeps_places
  refine ⟨h.lt_size.trans_le hkeeps.size_le, ?_, ?_⟩
  · have htext := hkeeps.isText_eq id h.lt_size
    rw [h.not_text] at htext
    simpa using htext
  · rw [hkeeps.unitsAround_eq h.lt_size, h.units_eq, ha.units_eq]

end Builder

namespace Builder

-- No node has been made, and no page directive has been followed.
structure Quiet (b b' : Builder) : Prop extends Advances b b' where
  alike : b.tree.Alike b'.tree
  scan_eq : b'.scan = b.scan
  trimBlanks_eq : b'.trimBlanks = b.trimBlanks

variable {b b' b'' : Builder}

theorem Quiet.refl (b : Builder) : Quiet b b := ⟨.refl b, .refl _, rfl, rfl⟩

theorem Quiet.trans (h : Quiet b b') (h' : Quiet b' b'') : Quiet b b'' :=
  ⟨h.toAdvances.trans h'.toAdvances, h.alike.trans h'.alike, h'.scan_eq.trans h.scan_eq,
    h'.trimBlanks_eq.trans h.trimBlanks_eq⟩

-- The nodes are the same, bodies and all.
structure Still (b b' : Builder) : Prop extends Quiet b b' where
  nodes_eq : b'.tree.nodes = b.tree.nodes

theorem Still.refl (b : Builder) : Still b b := ⟨.refl b, rfl⟩

theorem Still.trans (h : Still b b') (h' : Still b' b'') : Still b b'' :=
  ⟨h.toQuiet.trans h'.toQuiet, h'.nodes_eq.trans h.nodes_eq⟩

theorem Still.of_tree (htree : b'.tree = b.tree) (hunits : b'.units = b.units)
    (hscan : b'.scan = b.scan) (htrim : b'.trimBlanks = b.trimBlanks) : Still b b' :=
  ⟨⟨⟨by rw [htree], hunits⟩, by rw [htree]; exact .refl _, hscan, htrim⟩, by rw [htree]⟩

instance : IsPreorder Builder Advances :=
  { refl := Advances.refl, trans := fun _ _ _ => Advances.trans }

instance : IsPreorder Builder Quiet := { refl := Quiet.refl, trans := fun _ _ _ => Quiet.trans }

instance : IsPreorder Builder Still := { refl := Still.refl, trans := fun _ _ _ => Still.trans }

end Builder

-- What is done step by step goes on as long as every step leaves behind what the next one needs.
theorem isPreorder_of_keeps {P : Builder → Prop} {R : Builder → Builder → Prop}
    [IsPreorder Builder R] (h : ∀ {b b' : Builder}, P b → R b b' → P b') :
    IsPreorder Builder fun b b' => P b → R b b' where
  refl b _ := Std.Refl.refl b
  trans _ _ _ hR hR' hP := IsTrans.trans _ _ _ (hR hP) (hR' (h hP (hR hP)))

-- When it comes to an end without a failure, the state behind it is related to the one in front.
def Relates (R : Builder → Builder → Prop) {α : Type} (m : BuildM α) : Prop :=
  ∀ ⦃b : Builder⦄ ⦃a : α⦄ ⦃b' : Builder⦄, m b = .ok a b' → R b b'

-- No node is made.
abbrev Quietly {α : Type} (m : BuildM α) : Prop := Relates Builder.Quiet m

-- No node is changed, either.
abbrev Stilly {α : Type} (m : BuildM α) : Prop := Relates Builder.Still m

namespace Relates

variable {α β : Type} {R : Builder → Builder → Prop}

theorem fail (fault : Fault) (mark : Mark) : Relates R (Builder.fail fault mark : BuildM α) :=
  fun _ _ _ h => absurd h Builder.fail_ne_ok

theorem of_modify {f : Builder → Builder} (h : ∀ b : Builder, R b (f b)) : Relates R (modify f) := by
  rintro b a b' ⟨⟩
  exact h b

theorem of_same [Std.Refl R] {m : BuildM α} (h : ∀ {b a b'}, m b = .ok a b' → b' = b) :
    Relates R m := by
  intro b a b' hm
  rw [h hm]
  exact Std.Refl.refl b

theorem pure [Std.Refl R] (a : α) : Relates R (Pure.pure a : BuildM α) := of_same fun h => by
  cases h
  rfl

theorem get [Std.Refl R] : Relates R (MonadState.get : BuildM Builder) := of_same fun h => by
  cases h
  rfl

theorem bind [IsTrans Builder R] {m : BuildM α} {f : α → BuildM β} (hm : Relates R m)
    (hf : ∀ a, Relates R (f a)) : Relates R (m >>= f) := by
  intro b c b' h
  obtain ⟨a, s, hs, h⟩ := BuildM.bind_eq_ok.mp h
  exact IsTrans.trans _ _ _ (hm hs) (hf a h)

-- A loop over what is done for its own sake.
theorem forIn [IsPreorder Builder R] {f : α → BuildM β} (hf : ∀ a, Relates R (f a))
    (l : List α) : Relates R (forIn l PUnit.unit fun a _ => do
      discard (f a)
      Pure.pure (ForInStep.yield PUnit.unit) : BuildM PUnit) := by
  induction l with
  | nil => exact pure _
  | cons a l ih =>
    rw [List.forIn_cons]
    intro b u b' h
    obtain ⟨_, b₁, hone, h⟩ := BuildM.bind_eq_ok.mp h
    obtain ⟨_, b₂, hfirst, hone⟩ := BuildM.bind_eq_ok.mp hone
    obtain ⟨c, hfirst⟩ := BuildM.discard_eq_ok hfirst
    cases hone
    exact IsTrans.trans _ _ _ (hf a hfirst) (ih h)

theorem foldlM [IsPreorder Builder R] {l : List α} {f : β → α → BuildM β}
    (hf : ∀ c a, Relates R (f c a)) (init : β) : Relates R (l.foldlM f init) := by
  induction l generalizing init with
  | nil => exact pure init
  | cons a l ih =>
    rw [List.foldlM_cons]
    exact (hf init a).bind ih

end Relates

namespace Builder

variable {b b' : Builder} {parent id : Nat} {n : Node} {mark : Mark}

theorem stilly_placeError {α : Type} (mark : Mark) (r : Except Diagnostic α) :
    Stilly (placeError mark r) := .of_same fun h => (placeError_eq_ok h).2

theorem stilly_modifyBindings (f : Bindings → Bindings) : Stilly (modifyBindings f) :=
  .of_modify fun _ => .of_tree rfl rfl rfl rfl

theorem stilly_bindSpace (space : String) (ref : LibraryRef) (mark : Mark) :
    Stilly (bindSpace space ref mark) := by
  unfold bindSpace
  split
  · refine .bind (.fail _ _) fun _ => .bind .get fun b => ?_
    split
    · split
      · exact .pure _
      · exact .fail _ _
    · exact stilly_modifyBindings _
  · refine .bind .get fun b => ?_
    split
    · split
      · exact .pure _
      · exact .fail _ _
    · exact stilly_modifyBindings _

theorem stilly_resolve (ref : LibraryRef) (mark : Mark) : Stilly (resolve ref mark) := by
  refine .bind ?_ fun _ => stilly_placeError mark _
  rintro b a b' ⟨⟩
  exact .of_tree rfl rfl rfl rfl

theorem stilly_libraryOf (space : String) (mark : Mark) : Stilly (libraryOf space mark) := by
  unfold libraryOf
  refine .bind .get fun b => ?_
  dsimp only
  split
  · exact .fail _ _
  · split
    · exact .pure _
    · refine .bind (stilly_resolve _ _) fun found => ?_
      split
      · exact .fail _ _
      · exact .bind (stilly_modifyBindings _) fun _ => .pure _

theorem stilly_bindNamespace (space : String) (ref : LibraryRef) (mark : Mark) :
    Stilly (bindNamespace space ref mark) := by
  unfold bindNamespace
  refine .bind .get fun b => ?_
  split
  · refine .bind (stilly_resolve _ _) fun found => ?_
    split
    · exact .pure _
    · exact .bind (stilly_modifyBindings _) fun _ =>
        .bind (stilly_bindSpace _ _ _) fun _ => .pure _
  · exact .bind (stilly_bindSpace _ _ _) fun _ => .pure _

theorem checkDistinct_eq_ok {action : String} {attrs : List Attribute} {u : Unit}
    (h : checkDistinct action attrs b = .ok u b') : b' = b := by
  unfold checkDistinct at h
  cases hrepeated : repeated? [] attrs with
  | none =>
    rw [hrepeated] at h
    cases h
    rfl
  | some a =>
    rw [hrepeated] at h
    exact absurd h fail_ne_ok

theorem stilly_checkDistinct (action : String) (attrs : List Attribute) :
    Stilly (checkDistinct action attrs) := .of_same checkDistinct_eq_ok

theorem stilly_required (action : String) (attrs : List Attribute) (name : String) (mark : Mark) :
    Stilly (required action attrs name mark) := by
  unfold required
  split
  · exact .pure _
  · exact .fail _ _

theorem stilly_libraryRef (attrs : List Attribute) (mark : Mark) :
    Stilly (libraryRef attrs mark) := by
  unfold libraryRef
  split
  · exact .pure _
  · exact .pure _
  · exact .fail _ _
  · exact .fail _ _

theorem stilly_standardKind (parent : NodeId) (name : String) (attrs : List Attribute)
    (mark : Mark) (form : UnitForm) : Stilly (standardKind parent name attrs mark form) := by
  unfold standardKind
  split
  case h_13 => exact .bind (stilly_required _ _ _ _) fun _ => .pure _
  case h_14 =>
    split
    · exact .pure _
    · exact .fail _ _
  case h_15 =>
    refine .bind .get fun b => ?_
    split
    · exact .pure _
    · exact .fail _ _
  case h_16 => exact .fail _ _
  all_goals exact .pure _

theorem stilly_customKind (parent : NodeId) (space name : String) (mark : Mark) :
    Stilly (customKind parent space name mark) := by
  unfold customKind
  refine .bind (stilly_libraryOf _ _) fun library => ?_
  split
  · exact .fail _ _
  · exact .bind .get fun _ => .pure _

theorem grows_foldl {α : Type} {f : Tree → α → Tree} (hf : ∀ t a, Grows t (f t a)) (l : List α)
    (t : Tree) : Grows t (l.foldl f t) := by
  induction l generalizing t with
  | nil => exact .refl
  | cons a l ih => exact (hf t a).trans (ih _)

theorem grows_removeBlanks (t : Tree) (id : NodeId) : Grows t (removeBlanks t id) := by
  refine grows_foldl (fun t child => ?_) _ t
  split
  · exact .single (.removeBlank t id child ‹_›)
  · exact .refl

theorem alike_removeBlanks (t : Tree) (id : NodeId) : Alike t (removeBlanks t id) := by
  refine alike_foldl (fun t child => ?_) _ t
  split
  · exact alike_removeChild t id child
  · exact .refl t

theorem isBlank_of_subset {r : TextRun} {s : List Char} (h : r.isBlank)
    (hs : ∀ c ∈ s, c ∈ r.text.toList) : Text.blank (String.ofList s) := by
  rw [TextRun.isBlank, Text.blank, Text.allBlank, List.all_eq_true] at h
  rw [Text.blank, String.toList_ofList, Text.allBlank, List.all_eq_true]
  exact fun c hc => h c (hs c hc)

theorem isBlank_trimStart (r : TextRun) (h : r.isBlank) : r.trimStart.isBlank :=
  isBlank_of_subset h fun _ hc => (List.dropWhile_sublist _).subset hc

theorem isBlank_trimEnd (r : TextRun) (h : r.isBlank) : r.trimEnd.isBlank := by
  refine isBlank_of_subset h fun c hc => ?_
  have hmem := (List.dropWhile_sublist _).subset (List.mem_reverse.mp hc)
  exact List.mem_reverse.mp hmem

theorem grows_trimBody (t : Tree) (id : NodeId) : Grows t (trimBody t id) := by
  have hend : ∀ (end? : Option NodeId) (f : TextRun → TextRun) (t : Tree),
      (∀ r, r.isBlank → (f r).isBlank) → Grows t (end?.elim t fun id => t.modifyText id f) := by
    intro end? f t hf
    cases end? with
    | none => exact .refl
    | some id => exact .single (.modifyText t id f hf)
  exact (hend _ _ t isBlank_trimStart).trans (hend _ _ _ isBlank_trimEnd)

theorem alike_trimBody (t : Tree) (id : NodeId) : Alike t (trimBody t id) := by
  have hend : ∀ (end? : Option NodeId) (f : TextRun → TextRun) (t : Tree),
      (∀ r : TextRun, r.TrimsTo (f r)) →
        Alike t (end?.elim t fun id => t.modifyText id f) := by
    intro end? f t hf
    cases end? with
    | none => exact .refl t
    | some id => exact alike_modifyText hf t id
  exact (hend _ _ t TextRun.trimsTo_trimStart).trans (hend _ _ _ TextRun.trimsTo_trimEnd)

theorem grows_prune (t : Tree) : Grows t (prune t) := by
  refine grows_foldl (fun t id => ?_) _ t
  split
  · exact .refl
  · exact grows_removeBlanks t id

theorem alike_prune (t : Tree) : Alike t (prune t) := by
  refine alike_foldl (fun t id => ?_) _ t
  split
  · exact .refl t
  · exact alike_removeBlanks t id

theorem quietly_modifyTree {f : Tree → Tree} (h : ∀ t, Grows t (f t)) (h' : ∀ t, Alike t (f t)) :
    Quietly (modifyTree f) :=
  .of_modify fun b => ⟨⟨h b.tree, rfl⟩, h' b.tree, rfl, rfl⟩

theorem quietly_openBody (id : NodeId) : Quietly (modifyTree (·.openBody id)) :=
  quietly_modifyTree (fun t => .single (.openBody t id)) fun t => alike_openBody t id

theorem quietly_finishElement (id : NodeId) : Quietly (finishElement id) := by
  have hblanks : Quietly (modifyTree (removeBlanks · id)) :=
    quietly_modifyTree (fun t => grows_removeBlanks t id) fun t => alike_removeBlanks t id
  have htrim : Quietly (modifyTree (trimBody · id)) :=
    quietly_modifyTree (fun t => grows_trimBody t id) fun t => alike_trimBody t id
  unfold finishElement
  with_reducible repeat' first
    | exact hblanks
    | exact htrim
    | exact .pure _
    | exact .get
    | exact .fail _ _
    | refine .bind ?_ fun _ => ?_
    | split
    | dsimp only

-- An element whose body holds no attributes is left as it is when it closes.
theorem finishElement_eq {u : Unit} (hk : (b.tree.kind id).isNamed = false)
    (hc : ∀ c ∈ b.tree.children id, (b.tree.kind c).isNamed = false)
    (h : finishElement id b = .ok u b') : b' = b := by
  have hnone : ((b.tree.children id).any fun c => (b.tree.kind c).isNamed) = false :=
    List.any_eq_false.mpr fun c hm => by simp [hc c hm]
  unfold finishElement at h
  obtain ⟨b₀, s₀, hget, h⟩ := BuildM.bind_eq_ok.mp h
  cases hget
  dsimp only at h
  rw [hnone, if_neg Bool.false_ne_true] at h
  obtain ⟨b₁, s₁, hget, h⟩ := BuildM.bind_eq_ok.mp h
  cases hget
  cases hkind : b.tree.kind id with
  | named data =>
    rw [hkind] at hk
    cases hk
  | _ =>
    rw [hkind] at h
    split at h
    · cases hfind : (b.tree.children id).find? fun c => !(b.tree.kind c).isNamed with
      | some content =>
        rw [hfind] at h
        obtain ⟨_, _, hfail, -⟩ := BuildM.bind_eq_ok.mp h
        exact absurd hfail fail_ne_ok
      | none =>
        rw [hfind] at h
        cases h
        rfl
    · cases h
      rfl

-- Looking a library up does not touch the tree, nor what is to become of blanks.
theorem libraryOf_keeps {space : String} {library : Library}
    (h : libraryOf space mark b = .ok library b') :
    b'.tree = b.tree ∧ b'.trimBlanks = b.trimBlanks := by
  unfold libraryOf at h
  obtain ⟨_, _, hget, h⟩ := BuildM.bind_eq_ok.mp h
  cases hget
  cases hbound : b.bindings.get? space with
  | none =>
    simp only [hbound] at h
    exact absurd h fail_ne_ok
  | some binding =>
    simp only [hbound] at h
    cases hknown : b.bindings.libraries.lookup binding.ref.key with
    | some known =>
      simp only [hknown] at h
      cases h
      exact ⟨rfl, rfl⟩
    | none =>
      simp only [hknown] at h
      obtain ⟨found, b₁, hresolve, h⟩ := BuildM.bind_eq_ok.mp h
      obtain ⟨-, rfl⟩ := resolve_eq_ok hresolve
      cases found with
      | none => exact absurd h fail_ne_ok
      | some found =>
        obtain ⟨_, _, hmodify, h⟩ := BuildM.bind_eq_ok.mp h
        cases hmodify
        cases h
        exact ⟨rfl, rfl⟩

theorem libraries_keep {entries : List (String × Binding)} {u : PUnit}
    (h : (forIn entries PUnit.unit fun entry _ => do
      discard (libraryOf entry.1 entry.2.mark)
      pure (ForInStep.yield PUnit.unit) : BuildM PUnit) b = .ok u b') :
    b'.tree = b.tree ∧ b'.trimBlanks = b.trimBlanks := by
  induction entries generalizing b with
  | nil =>
    cases h
    exact ⟨rfl, rfl⟩
  | cons entry entries ih =>
    rw [List.forIn_cons] at h
    obtain ⟨_, b₁, hfirst, hrest⟩ := BuildM.bind_eq_ok.mp h
    obtain ⟨_, _, hlibrary, hyield⟩ := BuildM.bind_eq_ok.mp hfirst
    cases hyield
    obtain ⟨library, hlibrary⟩ := BuildM.discard_eq_ok hlibrary
    obtain ⟨htree, htrim⟩ := libraryOf_keeps hlibrary
    obtain ⟨htree', htrim'⟩ := ih hrest
    exact ⟨htree'.trans htree, htrim'.trans htrim⟩

-- The page that comes out is the tree as it is, or without its blank text.
theorem tree_of_finish {page : Page} (h : finish b = .ok page b') :
    page.tree = if b.trimBlanks then prune b.tree else b.tree := by
  unfold finish at h
  obtain ⟨_, _, hget, h₁⟩ := BuildM.bind_eq_ok.mp h
  cases hget
  obtain ⟨_, b₁, hloop, h₂⟩ := BuildM.bind_eq_ok.mp h₁
  obtain ⟨_, _, hget, h₃⟩ := BuildM.bind_eq_ok.mp h₂
  cases hget
  cases h₃
  obtain ⟨htree, htrim⟩ := libraries_keep hloop
  rw [htree, htrim]

theorem finish_eq_ok {page : Page} (h : finish b = .ok page b') :
    Grows b.tree page.tree ∧ b.tree.Alike page.tree := by
  rw [tree_of_finish h]
  split
  · exact ⟨grows_prune _, alike_prune _⟩
  · exact ⟨.refl, .refl _⟩

theorem append_advances (h : append parent n b = .ok id b') (hn : Fits b.tree parent n) :
    Advances b b' := by
  obtain ⟨rfl, rfl⟩ := append_eq_ok h
  exact ⟨.single (.append _ _ _ hn), rfl⟩

theorem inside_append (h : append parent n b = .ok id b') (hin : Inside b parent)
    (hroot : n.kind.root? = none) (htext : n.kind.run? = none) : Inside b' id := by
  obtain ⟨rfl, rfl⟩ := append_eq_ok h
  refine ⟨(Nat.lt_succ_self _).trans_eq size_append.symm, by rw [kind_append, htext], ?_⟩
  rw [unitsAround_append hin.lt_size, hroot]
  exact hin.units_eq

-- A node that is neither the root of a unit nor a custom action fits wherever its mark does.
theorem Inside.fits (hin : Inside b parent) (hchildren : n.children = [])
    (hroot : n.kind.root? = none) (hcustom : n.kind.custom? = none)
    (hinsert : ∀ data, n.kind = .insert data → data.FromSource)
    (hmark : b.units.head? = some n.mark.unit) : Fits b.tree parent n where
  parent_lt := hin.lt_size
  not_text := hin.not_text
  childless := hchildren
  root data hdata := by
    rw [hroot] at hdata
    cases hdata
  mark _ := by rw [hin.units_eq, hmark]
  insert := hinsert
  nesting data hdata := by
    rw [hcustom] at hdata
    cases hdata

-- Nodes of text and expressions come at the end of the tree, under one parent.
theorem advances_appendAll {nodes : List Node} (hin : Inside b parent)
    (hnodes : ∀ n ∈ nodes, n.children = [] ∧ n.kind.root? = none ∧ n.kind.custom? = none ∧
      (∀ data, n.kind = .insert data → data.FromSource) ∧ b.units.head? = some n.mark.unit) :
    Advances b { b with tree := appendAll b.tree parent nodes } := by
  induction nodes generalizing b with
  | nil => exact .refl b
  | cons n nodes ih =>
    obtain ⟨⟨hchildren, hroot, hcustom, hinsert, hmark⟩, hrest⟩ := List.forall_mem_cons.mp hnodes
    have hfirst : Advances b { b with tree := (b.tree.append parent n).2 } :=
      append_advances rfl (hin.fits hchildren hroot hcustom hinsert hmark)
    exact hfirst.trans (ih (hin.advance hfirst) hrest)

theorem partNodes_spec (mark : Mark) (text : List Char) (consumed : Nat) {parts : List Part}
    (h : Composite.Legible parts) :
    ∀ n ∈ partNodes mark text consumed parts, n.children = [] ∧ n.kind.root? = none ∧
      n.kind.custom? = none ∧ (∀ data, n.kind = .insert data → data.FromSource) ∧
      n.mark.unit = mark.unit := by
  fun_induction partNodes mark text consumed parts with
  | case1 => simp
  | case2 consumed value parts ih =>
    obtain ⟨-, hrest, -⟩ := h
    refine List.forall_mem_cons.mpr ⟨⟨rfl, rfl, rfl, ?_, Mark.advance_unit _ _⟩, ih hrest⟩
    rintro _ ⟨⟩
  | case3 _ dialect source tree offset parts ih =>
    obtain ⟨hcloses, hparse, hrest⟩ := h
    refine List.forall_mem_cons.mpr ⟨⟨rfl, rfl, rfl, ?_, Mark.advance_unit _ _⟩, ih hrest⟩
    rintro _ ⟨⟩
    exact ⟨hcloses, hparse⟩

theorem addText_advances {text : List Char} {u : Unit} (h : addText parent text mark b = .ok u b')
    (hin : Inside b parent) (hmark : b.units.head? = some mark.unit) : Advances b b' := by
  rw [addText_eq] at h
  split at h
  · exact absurd h fail_ne_ok
  · rename_i hparse
    cases h
    refine advances_appendAll hin fun n hn => ?_
    obtain ⟨hchildren, hroot, hcustom, hinsert, hunit⟩ :=
      partNodes_spec mark text 0 (Composite.legible_of_parse hparse) n hn
    exact ⟨hchildren, hroot, hcustom, hinsert, by rw [hmark, hunit]⟩

theorem addVerbatim_advances {text : List Char} {u : Unit}
    (h : addVerbatim parent text mark b = .ok u b') (hin : Inside b parent)
    (hmark : b.units.head? = some mark.unit) : Advances b b' := by
  unfold addVerbatim at h
  split at h
  · cases h
    exact .refl b
  · obtain ⟨id, h⟩ := BuildM.discard_eq_ok h
    exact append_advances h (hin.fits rfl rfl rfl (by rintro _ ⟨⟩) hmark)

theorem addComment_advances {text : List Char} {u : Unit}
    (h : addComment parent text mark b = .ok u b') (hin : Inside b parent)
    (hmark : b.units.head? = some mark.unit) : Advances b b' := by
  obtain ⟨id, h⟩ := BuildM.discard_eq_ok h
  exact append_advances h (hin.fits rfl rfl rfl (by rintro _ ⟨⟩) hmark)

theorem addScript_advances {kind : ScriptKind} {code : Script}
    (h : addScript parent kind code mark b = .ok id b') (hin : Inside b parent)
    (hmark : b.units.head? = some mark.unit) : Advances b b' ∧ Inside b' id := by
  refine ⟨append_advances h (hin.fits ?_ rfl rfl (by rintro _ ⟨⟩) hmark),
    inside_append h hin rfl rfl⟩
  cases code <;> rfl

-- Reading an included unit keeps to its own part of the tree.
def Includes (includeUnit : Includer) : Prop :=
  ∀ {parent : NodeId} {target : String} {mark : Mark} {b b' : Builder} {id : NodeId},
    includeUnit parent target .included mark b = .ok id b' → Inside b parent → Advances b b'

theorem advances_applyPageAttributes (b : Builder) (attrs : List Attribute) :
    Advances b (attrs.foldl applyPageAttribute b) := by
  have hone : ∀ (b : Builder) (a : Attribute), Advances b (applyPageAttribute b a) := by
    intro b a
    unfold applyPageAttribute
    split <;> exact ⟨.refl, rfl⟩
  induction attrs generalizing b with
  | nil => exact .refl b
  | cons a attrs ih => exact (hone b a).trans (ih _)

-- What a directive comes to: what it does to the state, and a node behind it. The unit that it
-- includes is read under the node.
inductive Directive (includeUnit : Includer) (parent : NodeId) (name : String)
    (attrs : List Attribute) (mark : Mark) (b : Builder) : NodeId → Builder → Prop
  | page {id : NodeId} {b' : Builder}
      (happend : append parent
        { kind := .pageDirective, mark, name := "jsp:directive." ++ name, attributes := attrs }
        (attrs.foldl applyPageAttribute b) = .ok id b') :
      Directive includeUnit parent name attrs mark b id b'
  | taglib {id : NodeId} {b₁ b' : Builder} (hb : b.Still b₁)
      (happend : append parent
        { kind := .taglibDirective, mark, name := "jsp:directive." ++ name, attributes := attrs }
        b₁ = .ok id b') :
      Directive includeUnit parent name attrs mark b id b'
  | inclusion {id root : NodeId} {file : String} {b₁ b₂ b' : Builder} (hb : b.Still b₁)
      (happend : append parent
        { kind := .includeDirective, mark, name := "jsp:directive." ++ name, attributes := attrs
          body := some [] } b₁ = .ok id b₂)
      (hinclude : includeUnit id file .included mark b₂ = .ok root b') :
      Directive includeUnit parent name attrs mark b id b'

theorem addDirective_eq_ok {includeUnit : Includer} {name : String} {attrs : List Attribute}
    (h : addDirective includeUnit parent name attrs mark b = .ok id b') :
    Directive includeUnit parent name attrs mark b id b' := by
  unfold addDirective at h
  obtain ⟨_, b₁, hdistinct, h⟩ := BuildM.bind_eq_ok.mp h
  have hb₁ := stilly_checkDistinct _ _ hdistinct
  split at h
  · obtain ⟨_, b₂, hmodify, h⟩ := BuildM.bind_eq_ok.mp h
    cases hmodify
    rw [checkDistinct_eq_ok hdistinct] at h
    exact .page h
  · obtain ⟨_, b₂, hspace, h⟩ := BuildM.bind_eq_ok.mp h
    obtain ⟨_, b₃, href, h⟩ := BuildM.bind_eq_ok.mp h
    obtain ⟨_, b₄, hbind, h⟩ := BuildM.bind_eq_ok.mp h
    have hb₄ := (stilly_required _ _ _ _ hspace).trans
      ((stilly_libraryRef _ _ href).trans (stilly_bindSpace _ _ _ hbind))
    exact .taglib (hb₁.trans hb₄) h
  · obtain ⟨_, b₂, hfile, h⟩ := BuildM.bind_eq_ok.mp h
    obtain ⟨id', b₃, happend, h⟩ := BuildM.bind_eq_ok.mp h
    obtain ⟨_, b₄, hinclude, h⟩ := BuildM.bind_eq_ok.mp h
    cases h
    obtain ⟨root, hinclude⟩ := BuildM.discard_eq_ok hinclude
    exact .inclusion (hb₁.trans (stilly_required _ _ _ _ hfile)) happend hinclude
  all_goals exact absurd h fail_ne_ok

theorem addDirective_advances {includeUnit : Includer} (hi : Includes includeUnit) {name : String}
    {attrs : List Attribute} (h : addDirective includeUnit parent name attrs mark b = .ok id b')
    (hin : Inside b parent) (hmark : b.units.head? = some mark.unit) :
    Advances b b' ∧ Inside b' id := by
  -- A directive comes as a node behind what it does to the state.
  have hlast : ∀ {b₁ b₂ : Builder} {n : Node}, Advances b b₁ → append parent n b₁ = .ok id b₂ →
      n.children = [] → n.kind.root? = none → n.kind.custom? = none → n.kind.run? = none →
      (∀ data, n.kind ≠ .insert data) → n.mark = mark → Advances b b₂ ∧ Inside b₂ id := by
    intro b₁ b₂ n hb h hchildren hroot hcustom htext hinsert hn
    have hin₁ := hin.advance hb
    have hfits := hin₁.fits hchildren hroot hcustom (fun data hk => absurd hk (hinsert data))
      (by rw [hn, hb.units_eq, hmark])
    exact ⟨hb.trans (append_advances h hfits), inside_append h hin₁ hroot htext⟩
  cases addDirective_eq_ok h with
  | page happend =>
    exact hlast (advances_applyPageAttributes _ attrs) happend rfl rfl rfl rfl (by simp) rfl
  | taglib hb happend => exact hlast hb.toAdvances happend rfl rfl rfl rfl (by simp) rfl
  | inclusion hb happend hinclude =>
    obtain ⟨hb₂, hnode⟩ := hlast hb.toAdvances happend rfl rfl rfl rfl (by simp) rfl
    have hb₃ := hi hinclude hnode
    exact ⟨hb₂.trans hb₃, hnode.advance hb₃⟩

theorem standardKind_spec {name : String} {attrs : List Attribute} {form : UnitForm}
    {kind : NodeKind} (h : standardKind parent name attrs mark form b = .ok kind b') :
    kind.OfElement ∧ kind.custom? = none := by
  unfold standardKind at h
  split at h
  case h_13 =>
    obtain ⟨_, _, _, h⟩ := BuildM.bind_eq_ok.mp h
    cases h
    exact ⟨.inr rfl, rfl⟩
  case h_14 =>
    split at h
    · cases h
      exact ⟨.inr rfl, rfl⟩
    · exact absurd h fail_ne_ok
  case h_15 =>
    obtain ⟨_, _, _, h⟩ := BuildM.bind_eq_ok.mp h
    split at h
    · cases h
      exact ⟨.inl rfl, rfl⟩
    · exact absurd h fail_ne_ok
  case h_16 => exact absurd h fail_ne_ok
  all_goals
    cases h
    exact ⟨.inr rfl, rfl⟩

-- How deep a custom action stands is counted in the tree it is put into.
theorem customKind_spec {space name : String} {kind : NodeKind}
    (h : customKind parent space name mark b = .ok kind b') :
    ∃ data, kind = .custom data ∧
      data.nestingLevel = b'.tree.nestingLevel parent data.qualifiedName := by
  unfold customKind at h
  obtain ⟨library, b₁, _, h⟩ := BuildM.bind_eq_ok.mp h
  cases htag : library.tag? name with
  | none =>
    rw [htag] at h
    exact absurd h fail_ne_ok
  | some tag =>
    rw [htag] at h
    obtain ⟨_, _, hget, h⟩ := BuildM.bind_eq_ok.mp h
    cases hget
    cases h
    exact ⟨_, rfl, rfl⟩

-- An action is one node, which is made when its kind is known.
theorem startAction_eq_ok {name : String} {attrs : List Attribute} {form : UnitForm}
    (h : startAction parent name attrs mark form b = .ok id b') :
    ∃ kind b₁, b.Still b₁ ∧ kind.OfElement ∧
      (∀ data, kind.custom? = some data →
        data.nestingLevel = b₁.tree.nestingLevel parent data.qualifiedName) ∧
      append parent { kind, mark, name, attributes := attrs } b₁ = .ok id b' := by
  unfold startAction at h
  obtain ⟨_, b₁, hdistinct, h⟩ := BuildM.bind_eq_ok.mp h
  have hb₁ := stilly_checkDistinct _ _ hdistinct
  dsimp only at h
  split at h
  · obtain ⟨kind, b₂, hkind, h⟩ := BuildM.bind_eq_ok.mp h
    obtain ⟨haction, hcustom⟩ := standardKind_spec hkind
    refine ⟨kind, b₂, hb₁.trans (stilly_standardKind _ _ _ _ _ hkind), haction,
      fun data hdata => ?_, h⟩
    rw [hcustom] at hdata
    cases hdata
  · obtain ⟨kind, b₂, hkind, h⟩ := BuildM.bind_eq_ok.mp h
    obtain ⟨data, rfl, hlevel⟩ := customKind_spec hkind
    refine ⟨_, b₂, hb₁.trans (stilly_customKind _ _ _ _ hkind), .inr rfl, ?_, h⟩
    rintro _ ⟨⟩
    exact hlevel

theorem startAction_advances {name : String} {attrs : List Attribute} {form : UnitForm}
    (h : startAction parent name attrs mark form b = .ok id b') (hin : Inside b parent)
    (hmark : b.units.head? = some mark.unit) : Advances b b' ∧ Inside b' id := by
  obtain ⟨kind, b₁, hb₁, haction, hlevel, happend⟩ := startAction_eq_ok h
  obtain ⟨hroot, htext, -, hinsert⟩ := haction.spec
  have hin₁ := hin.advance hb₁.toAdvances
  have hfits : Fits b₁.tree parent { kind, mark, name, attributes := attrs } := by
    refine ⟨hin₁.lt_size, hin₁.not_text, rfl, fun data hdata => ?_, fun _ => ?_,
      fun data hk => absurd hk (hinsert data), hlevel⟩
    · rw [hroot] at hdata
      cases hdata
    · rw [hin₁.units_eq, hb₁.units_eq, hmark]
  exact ⟨hb₁.toAdvances.trans (append_advances happend hfits),
    inside_append happend hin₁ hroot htext⟩

end Builder

end PageCompiler
