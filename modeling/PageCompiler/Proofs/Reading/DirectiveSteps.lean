import PageCompiler.ClassText.Content
import PageCompiler.Proofs.Reading.BindingRuns
import PageCompiler.Proofs.Reading.Pruning
import PageCompiler.Proofs.Reading.VerbatimSteps

-- An include directive is given the root of its unit before anything else; a document may go on to
-- put elements and comments into a directive, and no reader ever puts text there.
namespace PageCompiler

open Text
open ClassText (isDirective)
open Markup (Event Located)

namespace Strict

-- The inside of a tag binds a prefix to the namespace of the standard actions.
def bindsStandard (space : String) (inside : List Char) : Bool :=
  (Markup.StartTag.attributes? inside).any fun attrs => attrs.any fun (name, value) =>
    withoutStart? "xmlns:" name == some space && (codeValue? value).getD value == standardUri

-- A prefix that stands for this namespace behind the given events.
def isStandard (seen : List Located) (space : String) : Bool :=
  space == Builder.standardSpace || seen.any fun e =>
    match e.event with
    | .opening inside | .empty inside => bindsStandard space inside
    | _ => false

-- The inside of a tag names a directive, with a prefix that stands for the namespace behind the
-- events.
def namesDirective (seen : List Located) (inside : List Char) : Bool :=
  let name := String.ofList (Markup.StartTag.name inside)
  let (space, inner) := (cutString? ':' name).getD ("", name)
  isStandard seen space && (withoutStart? "directive." inner).isSome

-- A tag that opens a directive behind the given events. It may bind its own prefix.
def opensDirective (seen : List Located) (tag : Located) : Bool :=
  match tag.event with
  | .opening inside => namesDirective (seen ++ [tag]) inside
  | _ => false

def isClosing : Event → Bool
  | .closing _ => true
  | _ => false

-- Events that make no node of their own.
def isSilent : Event → Bool
  | .text _ | .cdata _ | .other => true
  | _ => false

-- Whether something else than a closing tag is the first to make a node, or to end one.
def meetsContent (events : List Located) : Bool :=
  (events.find? fun e => !isSilent e.event).any fun e => !isClosing e.event

-- A directive of a document has a tag or a comment in front of the tag that closes it.
def FillsDirective (events : List Located) : Prop :=
  ∃ seen tag rest, events = seen ++ tag :: rest ∧ opensDirective seen tag = true ∧
    meetsContent rest = true

theorem fillsDirective_of_opensDirective {before between behind : List Located} {tag e : Located}
    (htag : opensDirective before tag = true) (hbetween : ∀ d ∈ between, isSilent d.event = true)
    (he : isSilent e.event = false) (hclosing : isClosing e.event = false) :
    FillsDirective (before ++ tag :: (between ++ e :: behind)) := by
  have hfind : (between ++ e :: behind).find? (fun d => !isSilent d.event) = some e := by
    rw [List.find?_append, List.find?_eq_none.mpr (by simpa using hbetween)]
    simp [he]
  exact ⟨before, tag, between ++ e :: behind, rfl, htag, by simp [meetsContent, hfind, hclosing]⟩

theorem isStandard_append {seen : List Located} {space : String} (h : isStandard seen space = true)
    (more : List Located) : isStandard (seen ++ more) space = true := by
  rw [isStandard, Bool.or_eq_true, List.any_append, Bool.or_eq_true] at *
  exact h.imp_right .inl

theorem isStandard_of_bindsStandard {seen : List Located} {e : Located} {space : String}
    {inside : List Char} (he : e.event = .opening inside ∨ e.event = .empty inside)
    (h : bindsStandard space inside = true) : isStandard (seen ++ [e]) space = true := by
  rw [isStandard, Bool.or_eq_true, List.any_append, Bool.or_eq_true]
  refine .inr (.inr ?_)
  rcases he with he | he <;> simpa [he] using h

end Strict

-- A unit that is a document with such a directive.
def Crowded (units : Builder.Units) (unit : String) : Prop :=
  ∃ data text, units data text ∧ data.unit = unit ∧ data.form = .strict ∧
    Strict.FillsDirective (Markup.read text).events

-- What may be found in a directive besides the root of an included unit: no text, and only what is
-- written in such a document.
structure Node.Stray (units : Builder.Units) (n : Node) : Prop where
  text : n.kind.run? = none
  insert : n.kind.insert? = none
  root : n.kind.root? = none
  crowded : Crowded units n.mark.unit

-- The root of a unit that the directive with these attributes includes.
def UnitRoot.IncludedBy (data : UnitRoot) (attrs : List Attribute) : Prop :=
  data.origin = .included ∧ ∃ base file, Attribute.find? attrs "file" = some file ∧
    data.unit = UnitName.resolve base file

theorem Node.Alike.run?_eq_none {n m : Node} (h : n.Alike m) (hn : n.kind.run? = none) :
    m.kind.run? = none := by
  rw [h.kind.eq_of_run? hn]
  exact hn

theorem Node.Stray.of_alike {units : Builder.Units} {n m : Node} (hn : n.Stray units)
    (h : n.Alike m) : m.Stray units := by
  have hkind := h.kind.eq_of_run? hn.text
  exact ⟨hkind ▸ hn.text, hkind ▸ hn.insert, hkind ▸ hn.root, h.mark_eq ▸ hn.crowded⟩

theorem Node.Alike.isDirective_eq {n m : Node} (h : n.Alike m) :
    isDirective m.kind = isDirective n.kind := by
  have hkind := h.kind
  generalize n.kind = k at hkind
  generalize m.kind = k' at hkind
  cases hkind <;> rfl

namespace Tree

variable {units : Builder.Units} {held : Option NodeId} {t u v : Tree} {id parent : Nat} {n : Node}

-- The directives of a tree, but for one whose unit is still to be put under it, hold nothing that
-- they may not hold.
structure Orderly (units : Builder.Units) (held : Option NodeId) (t : Tree) : Prop where
  plain : ∀ id < t.size, t.kind id = .pageDirective ∨ t.kind id = .taglibDirective →
    ∀ c ∈ t.children id, c < t.size ∧ (t.node c).Stray units
  inclusion : ∀ id < t.size, held ≠ some id → t.kind id = .includeDirective →
    ∃ root data rest, t.children id = root :: rest ∧ root < t.size ∧ t.kind root = .root data ∧
      data.IncludedBy (t.node id).attributes ∧ ∀ c ∈ rest, c < t.size ∧ (t.node c).Stray units

theorem Orderly.hold (h : t.Orderly units none) (held : Option NodeId) : t.Orderly units held :=
  ⟨h.plain, fun id hid _ => h.inclusion id hid nofun⟩

-- What may be found in a directive stays so while the tree grows.
theorem Extends.stray (he : t.Extends u) {c : NodeId} (hc : c < t.size ∧ (t.node c).Stray units) :
    c < u.size ∧ (u.node c).Stray units :=
  ⟨hc.1.trans_le he.size_le, hc.2.of_alike (he.node c hc.1)⟩

theorem kind_of_isDirective_eq_false (h : isDirective (t.kind id) = false) :
    ¬(t.kind id = .pageDirective ∨ t.kind id = .taglibDirective) ∧
      t.kind id ≠ .includeDirective := by
  refine ⟨?_, fun hk => ?_⟩
  · rintro (hk | hk) <;> rw [hk] at h <;> cases h
  · rw [hk] at h
    cases h

-- Bodies without text stay as they are.
structure Thins (t u : Tree) : Prop where
  alike : t.Alike u
  children : ∀ id, (∀ c ∈ t.children id, (t.kind c).run? = none) → u.children id = t.children id

theorem Thins.refl (t : Tree) : t.Thins t := ⟨.refl t, fun _ _ => rfl⟩

theorem Thins.trans (h : t.Thins u) (h' : u.Thins v) : t.Thins v := by
  refine ⟨h.alike.trans h'.alike, fun id hid => ?_⟩
  have hu := h.children id hid
  rw [h'.children id fun c hc => (h.alike.node c).run?_eq_none (hid c (hu ▸ hc)), hu]

theorem thins_of_nodes (h : u.nodes = t.nodes) : t.Thins u := by
  have hnode : ∀ id, u.node id = t.node id := fun id => by rw [node, node, h]
  refine ⟨⟨by rw [size, size, h], fun id => by rw [hnode]; exact .refl _⟩, fun id _ => ?_⟩
  rw [children, children, hnode]

theorem thins_openBody (t : Tree) (id : NodeId) : t.Thins (t.openBody id) := by
  refine ⟨alike_openBody t id, fun i _ => ?_⟩
  rw [openBody, children, node_modify]
  split <;> rfl

theorem thins_removeBlanks (t : Tree) (id : NodeId) : t.Thins (Builder.removeBlanks t id) := by
  refine ⟨Builder.alike_removeBlanks t id, fun i hi => ?_⟩
  rw [children, node_removeBlanks]
  split
  · rw [Node.without_eq_self fun c hc => ?_]
    · rfl
    · have hc := hi c hc
      rw [isBlankNode]
      cases hk : t.kind c <;> first | rfl | (rw [hk] at hc; cases hc)
  · rfl

theorem thins_trimBody (t : Tree) (id : NodeId) : t.Thins (Builder.trimBody t id) := by
  refine ⟨Builder.alike_trimBody t id, fun i _ => ?_⟩
  unfold Builder.trimBody
  dsimp only
  cases (t.children id).head? <;> cases (t.children id).getLast? <;>
    simp only [Option.elim, children_modifyText]

theorem thins_prune (t : Tree) : t.Thins (Builder.prune t) := by
  rw [prune_eq_foldl]
  generalize t.preorder = ids
  induction ids generalizing t with
  | nil => exact .refl t
  | cons id ids ih =>
    refine Thins.trans ?_ (ih _)
    unfold pruneBody
    split
    · exact .refl t
    · exact thins_removeBlanks t id

theorem Orderly.thins (h : t.Orderly units held) (hu : t.Thins u) : u.Orderly units held := by
  have hsize := hu.alike.size_eq
  have hkind : ∀ {id k}, u.kind id = k → k.run? = none → t.kind id = k := fun hk hnone =>
    ((hu.alike.node _).kind.eq (by rw [show (u.node _).kind = _ from hk]; exact hnone)).trans hk
  constructor
  · intro id hid hk c hc
    have hall := h.plain id (hsize ▸ hid) (hk.imp (hkind · rfl) (hkind · rfl))
    rw [hu.children id fun c hc => (hall c hc).2.text] at hc
    exact hu.alike.extends.stray (hall c hc)
  · intro id hid hheld hk
    obtain ⟨root, data, rest, hchildren, hroot, hdata, hincluded, hrest⟩ :=
      h.inclusion id (hsize ▸ hid) hheld (hkind hk rfl)
    have htextless : ∀ c ∈ t.children id, (t.kind c).run? = none := by
      rw [hchildren]
      refine List.forall_mem_cons.mpr ⟨?_, fun c hc => (hrest c hc).2.text⟩
      rw [hdata]
      rfl
    have hroot' := (hu.alike.node root).kind.eq_of_run? (htextless root (by simp [hchildren]))
    refine ⟨root, data, rest, (hu.children id htextless).trans hchildren, hsize ▸ hroot,
      hroot'.trans hdata, ?_, fun c hc => hu.alike.extends.stray (hrest c hc)⟩
    rw [(hu.alike.node id).attributes_eq]
    exact hincluded

theorem children_append (t : Tree) (parent : NodeId) (n : Node) (i : NodeId) :
    (t.append parent n).2.children i =
      if i = t.size then n.children
      else if i = parent ∧ i < t.size then t.children i ++ [t.size] else t.children i := by
  rw [children, node_append]
  split
  · rfl
  · split <;> rfl

theorem lt_of_lt_append (h : id < (t.append parent n).2.size) (hne : id ≠ t.size) : id < t.size :=
  Nat.lt_of_le_of_ne (Nat.le_of_lt_succ (h.trans_eq size_append)) hne

-- The new node comes last in the body of its parent.
theorem children_append_of_lt (n : Node) (parent : NodeId) (h : id < t.size) :
    ∃ added, (t.append parent n).2.children id = t.children id ++ added ∧
      ∀ c ∈ added, c = t.size ∧ id = parent := by
  rw [children_append, if_neg h.ne]
  split
  · rename_i hparent
    exact ⟨[t.size], rfl, by simpa using hparent.1⟩
  · exact ⟨[], by simp, nofun⟩

-- A node goes where it belongs: into no directive, unless it may be found there.
theorem Orderly.append (h : t.Orderly units held) (hn : n.children = [])
    (hkind : n.kind = .includeDirective → held = some t.size)
    (hp : isDirective (t.kind parent) = false ∨ n.Stray units) :
    (t.append parent n).2.Orderly units held := by
  have hextends := t.extends_append parent n
  -- A directive that is given the node may hold it.
  have hlast : isDirective (t.kind parent) ≠ false → t.size < (t.append parent n).2.size ∧
      ((t.append parent n).2.node t.size).Stray units := fun hdirective => by
    rw [node_append_last]
    obtain ⟨htext, hinsert, hroot, hcrowded⟩ := hp.resolve_left hdirective
    exact ⟨(Nat.lt_succ_self _).trans_eq size_append.symm, htext, hinsert, hroot, hcrowded⟩
  constructor
  · intro id hid hk c hc
    by_cases hne : id = t.size
    · rw [hne, children_append, if_pos rfl, hn] at hc
      cases hc
    have hlt := lt_of_lt_append hid hne
    rw [kind_append_of_lt hlt] at hk
    obtain ⟨added, hchildren, hadded⟩ := children_append_of_lt n parent hlt
    rw [hchildren] at hc
    rcases List.mem_append.mp hc with hc | hc
    · exact hextends.stray (h.plain id hlt hk c hc)
    · obtain ⟨rfl, rfl⟩ := hadded c hc
      exact hlast fun hfalse => (kind_of_isDirective_eq_false hfalse).1 hk
  · intro id hid hheld hk
    by_cases hne : id = t.size
    · rw [hne, kind_append] at hk
      exact absurd (hne ▸ hkind hk) hheld
    have hlt := lt_of_lt_append hid hne
    rw [kind_append_of_lt hlt] at hk
    obtain ⟨root, data, rest, hbefore, hroot, hdata, hincluded, hrest⟩ :=
      h.inclusion id hlt hheld hk
    obtain ⟨added, hchildren, hadded⟩ := children_append_of_lt n parent hlt
    rw [hchildren, hbefore, (hextends.node id hlt).attributes_eq]
    refine ⟨root, data, rest ++ added, rfl, hroot.trans_le hextends.size_le,
      (kind_append_of_lt hroot).trans hdata, hincluded, fun c hc => ?_⟩
    rcases List.mem_append.mp hc with hc | hc
    · exact hextends.stray (hrest c hc)
    · obtain ⟨rfl, rfl⟩ := hadded c hc
      exact hlast fun hfalse => (kind_of_isDirective_eq_false hfalse).2 hk

-- The root of the included unit is the first to be put under an include directive.
theorem Orderly.append_root {data : UnitRoot} (h : t.Orderly units (some parent))
    (hlt : parent < t.size) (hparent : t.kind parent = .includeDirective)
    (hempty : t.children parent = []) (hkind : n.kind = .root data)
    (hdata : data.IncludedBy (t.node parent).attributes) :
    (t.append parent n).2.Orderly units none := by
  have hextends := t.extends_append parent n
  have hold : ∀ id < (t.append parent n).2.size, (t.append parent n).2.kind id ≠ n.kind →
      id < t.size ∧ id ≠ t.size := fun id hid hk => by
    have hne : id ≠ t.size := by
      rintro rfl
      exact hk kind_append
    exact ⟨lt_of_lt_append hid hne, hne⟩
  constructor
  · intro id hid hk c hc
    obtain ⟨hid', hne⟩ := hold id hid (by rcases hk with hk | hk <;> simp [hk, hkind])
    rw [kind_append_of_lt hid'] at hk
    rw [children_append, if_neg hne, if_neg] at hc
    · exact hextends.stray (h.plain id hid' hk c hc)
    · rintro ⟨rfl, -⟩
      rw [hparent] at hk
      rcases hk with hk | hk <;> cases hk
  · intro id hid _ hk
    obtain ⟨hid', hne⟩ := hold id hid (by simp [hk, hkind])
    rw [kind_append_of_lt hid'] at hk
    rw [children_append, if_neg hne, (hextends.node id hid').attributes_eq]
    by_cases heq : id = parent
    · subst heq
      rw [if_pos ⟨rfl, hid'⟩, hempty]
      exact ⟨t.size, data, [], rfl, (Nat.lt_succ_self _).trans_eq size_append.symm,
        kind_append.trans hkind, hdata, nofun⟩
    · rw [if_neg fun h => heq h.1]
      obtain ⟨root, data', rest, hchildren, hroot, hdata', hincluded, hrest⟩ :=
        h.inclusion id hid' (fun hheld => heq (Option.some.inj hheld).symm) hk
      exact ⟨root, data', rest, hchildren, hroot.trans_le hextends.size_le,
        (kind_append_of_lt hroot).trans hdata', hincluded, fun c hc => hextends.stray (hrest c hc)⟩

-- A node that is no directive, which may be given everything.
structure Takes (t : Tree) (id : NodeId) : Prop where
  lt_size : id < t.size
  plain : isDirective (t.kind id) = false

theorem Takes.of_extends (h : t.Takes id) (he : t.Extends u) : u.Takes id :=
  ⟨h.lt_size.trans_le he.size_le, (he.node id h.lt_size).isDirective_eq.trans h.plain⟩

-- A node to which a unit may give what is no text.
structure Admits (units : Builder.Units) (t : Tree) (id : NodeId) (unit : String) : Prop where
  lt_size : id < t.size
  plain : isDirective (t.kind id) = false ∨ Crowded units unit

theorem Admits.of_extends {unit : String} (h : t.Admits units id unit) (he : t.Extends u) :
    u.Admits units id unit :=
  ⟨h.lt_size.trans_le he.size_le,
    h.plain.imp_left fun hp => (he.node id h.lt_size).isDirective_eq.trans hp⟩

theorem Takes.admits (h : t.Takes id) (unit : String) : t.Admits units id unit :=
  ⟨h.lt_size, .inl h.plain⟩

end Tree

namespace Builder

variable {units : Units} {b b' : Builder} {parent id : Nat} {n : Node} {mark : Mark}

-- The tree has grown, and its directives are still in order.
structure Orders (units : Units) (b b' : Builder) : Prop where
  grown : b.tree.Extends b'.tree
  orderly : b.tree.Orderly units none → b'.tree.Orderly units none

theorem Orders.refl (b : Builder) : Orders units b b := ⟨.refl _, id⟩

theorem Orders.trans {b'' : Builder} (h : Orders units b b') (h' : Orders units b' b'') :
    Orders units b b'' := ⟨h.grown.trans h'.grown, fun hb => h'.orderly (h.orderly hb)⟩

instance : IsPreorder Builder (Orders units) where
  refl := .refl
  trans _ _ _ := .trans

theorem orders_of_thins (h : b.tree.Thins b'.tree) : Orders units b b' :=
  ⟨h.alike.extends, fun hb => hb.thins h⟩

theorem Still.orders (h : b.Still b') : Orders units b b' :=
  orders_of_thins (Tree.thins_of_nodes h.nodes_eq)

theorem orders_modifyTree {f : Tree → Tree} (h : ∀ t : Tree, t.Thins (f t)) :
    Relates (Orders units) (modifyTree f) := .of_modify fun _ => orders_of_thins (h _)

theorem orders_finishElement (id : NodeId) : Relates (Orders units) (finishElement id) := by
  have hblanks : Relates (Orders units) (modifyTree (removeBlanks · id)) :=
    orders_modifyTree fun t => t.thins_removeBlanks id
  have htrim : Relates (Orders units) (modifyTree (trimBody · id)) :=
    orders_modifyTree fun t => t.thins_trimBody id
  unfold finishElement
  with_reducible repeat' first
    | exact hblanks
    | exact htrim
    | exact .pure _
    | exact .get
    | exact .fail _ _
    | refine .bind ?_ fun _ => ?_
    | split
    | dsimp only

theorem orders_openBody (id : NodeId) : Relates (Orders units) (modifyTree (·.openBody id)) :=
  orders_modifyTree fun t => t.thins_openBody id

theorem orders_appendAll {nodes : List Node} (hp : b.tree.Takes parent)
    (hnodes : ∀ n ∈ nodes, n.children = [] ∧ n.kind ≠ .includeDirective) :
    Orders units b { b with tree := appendAll b.tree parent nodes } := by
  refine ⟨extends_appendAll _ _ _, fun hb => ?_⟩
  dsimp only
  generalize b.tree = t at hp hb
  induction nodes generalizing t with
  | nil => exact hb
  | cons n nodes ih =>
    obtain ⟨⟨hn, hkind⟩, hrest⟩ := List.forall_mem_cons.mp hnodes
    exact ih hrest _ (hp.of_extends (t.extends_append parent n))
      (hb.append hn (fun h => absurd h hkind) (.inl hp.plain))

theorem ne_includeDirective_of_mem_partNodes {text : List Char} {consumed : Nat}
    {parts : List Part} (h : n ∈ partNodes mark text consumed parts) :
    n.kind ≠ .includeDirective := by
  fun_induction partNodes mark text consumed parts with
  | case1 => cases h
  | case2 _ _ _ ih | case3 _ _ _ _ _ _ ih =>
    rcases List.mem_cons.mp h with rfl | h
    · simp
    · exact ih h

theorem addText_orders {text : List Char} {v : Unit} (h : addText parent text mark b = .ok v b')
    (hp : b.tree.Takes parent) : Orders units b b' := by
  rw [addText_eq] at h
  split at h
  · exact absurd h fail_ne_ok
  · rename_i hparse
    cases h
    refine orders_appendAll hp fun n hn => ?_
    have hchildren := partNodes_spec mark text 0 (Composite.legible_of_parse hparse) n hn
    exact ⟨hchildren.1, ne_includeDirective_of_mem_partNodes hn⟩

theorem addVerbatim_orders {text : List Char} {v : Unit}
    (h : addVerbatim parent text mark b = .ok v b') (hp : b.tree.Takes parent) :
    Orders units b b' := by
  unfold addVerbatim at h
  split at h
  · cases h
    exact .refl _
  · obtain ⟨id, happend⟩ := BuildM.discard_eq_ok h
    obtain ⟨-, rfl⟩ := append_eq_ok happend
    exact ⟨Tree.extends_append _ _ _, fun hb => hb.append rfl nofun (.inl hp.plain)⟩

theorem append_orders (h : append parent n b = .ok id b')
    (hp : b.tree.Admits units parent n.mark.unit) (hn : n.children = [])
    (hkind : n.kind ≠ .includeDirective) (htext : n.kind.run? = none)
    (hinsert : n.kind.insert? = none) (hroot : n.kind.root? = none) : Orders units b b' := by
  obtain ⟨-, rfl⟩ := append_eq_ok h
  exact ⟨Tree.extends_append _ _ _, fun hb => hb.append hn (fun h => absurd h hkind)
    (hp.plain.imp_right fun hcrowded => ⟨htext, hinsert, hroot, hcrowded⟩)⟩

theorem addComment_orders {text : List Char} {v : Unit}
    (h : addComment parent text mark b = .ok v b') (hp : b.tree.Admits units parent mark.unit) :
    Orders units b b' := by
  obtain ⟨_, happend⟩ := BuildM.discard_eq_ok h
  exact append_orders happend hp rfl nofun rfl rfl rfl

theorem takes_append (h : append parent n b = .ok id b') (hn : isDirective n.kind = false) :
    b'.tree.Takes id := by
  obtain ⟨hid, hnode⟩ := node_of_append h
  exact ⟨hid, by rw [Tree.kind, hnode]; exact hn⟩

theorem addScript_orders {kind : ScriptKind} {code : Script}
    (h : addScript parent kind code mark b = .ok id b') (hp : b.tree.Admits units parent mark.unit) :
    Orders units b b' ∧ b'.tree.Takes id :=
  ⟨append_orders h hp (by cases code <;> rfl) nofun rfl rfl rfl, takes_append h rfl⟩

theorem isDirective_of_ofElement {kind : NodeKind} (h : kind.OfElement) :
    isDirective kind = false := by
  rcases h with rfl | h
  · rfl
  · cases kind <;> first | rfl | cases h

theorem startAction_orders {name : String} {attrs : List Attribute} {form : UnitForm}
    (h : startAction parent name attrs mark form b = .ok id b')
    (hp : b.tree.Admits units parent mark.unit) : Orders units b b' ∧ b'.tree.Takes id := by
  obtain ⟨kind, b₁, hstill, helement, -, happend⟩ := startAction_eq_ok h
  have hb₁ : Orders units b b₁ := hstill.orders
  obtain ⟨hroot, htext, -, hinsert⟩ := helement.spec
  have hplain := isDirective_of_ofElement helement
  have hkind : kind ≠ .includeDirective := by
    rintro rfl
    cases hplain
  have hinsert : kind.insert? = none := by
    rw [Option.eq_none_iff_forall_ne_some]
    exact fun data hdata => hinsert data (NodeKind.insert?_eq_some.mp hdata)
  exact ⟨hb₁.trans (append_orders happend (hp.of_extends hb₁.grown) rfl hkind htext hinsert hroot),
    takes_append happend hplain⟩

-- A unit that is included by a directive is put under it, which holds nothing yet.
def IncludesOrderly (units : Units) (includeUnit : Includer) : Prop :=
  ∀ {parent root : NodeId} {target : String} {mark : Mark} {b b' : Builder},
    includeUnit parent target .included mark b = .ok root b' → parent < b.tree.size →
    b.tree.kind parent = .includeDirective → b.tree.children parent = [] →
    Attribute.find? (b.tree.node parent).attributes "file" = some target →
      b.tree.Extends b'.tree ∧
        (b.tree.Orderly units (some parent) → b'.tree.Orderly units none)

-- A directive that includes a unit is there before the unit.
theorem inclusion_orders {includeUnit : Includer} (hi : IncludesOrderly units includeUnit)
    {root : NodeId} {file name : String} {attrs : List Attribute} {b₁ : Builder}
    (hfile : Attribute.find? attrs "file" = some file)
    (happend : append parent { kind := .includeDirective, mark, name, attributes := attrs
                               body := some [] } b = .ok id b₁)
    (hinclude : includeUnit id file .included mark b₁ = .ok root b')
    (hp : b.tree.Admits units parent mark.unit) : Orders units b b' ∧ id < b'.tree.size := by
  obtain ⟨hid, hnode⟩ := node_of_append happend
  obtain ⟨hgrown, horderly⟩ := hi hinclude hid (by rw [Tree.kind, hnode])
    (by rw [Tree.children, hnode]; rfl) (by rw [hnode]; exact hfile)
  obtain ⟨rfl, rfl⟩ := append_eq_ok happend
  refine ⟨⟨(Tree.extends_append _ _ _).trans hgrown, fun hb => horderly ?_⟩,
    hid.trans_le hgrown.size_le⟩
  exact (hb.hold _).append rfl (fun _ => rfl)
    (hp.plain.imp_right fun hcrowded => ⟨rfl, rfl, rfl, hcrowded⟩)

theorem addDirective_orders {includeUnit : Includer} (hi : IncludesOrderly units includeUnit)
    {name : String} {attrs : List Attribute}
    (h : addDirective includeUnit parent name attrs mark b = .ok id b')
    (hp : b.tree.Admits units parent mark.unit) : Orders units b b' ∧ id < b'.tree.size := by
  -- A directive of another kind comes as a node behind what it does to the state.
  have hlast : ∀ {b₁ : Builder} {n : Node}, Orders units b b₁ → append parent n b₁ = .ok id b' →
      n.mark = mark → n.children = [] → n.kind = .pageDirective ∨ n.kind = .taglibDirective →
      Orders units b b' ∧ id < b'.tree.size := by
    intro b₁ n hb₁ happend hmark hn hkind
    have hp₁ := hp.of_extends hb₁.grown
    rw [← hmark] at hp₁
    refine ⟨hb₁.trans (append_orders happend hp₁ hn ?_ ?_ ?_ ?_), (node_of_append happend).1⟩
    all_goals rcases hkind with hkind | hkind <;> rw [hkind] <;> first | rfl | nofun
  unfold addDirective at h
  obtain ⟨_, b₁, hdistinct, h⟩ := BuildM.bind_eq_ok.mp h
  have hb₁ : Orders units b b₁ := (stilly_checkDistinct _ _ hdistinct).orders
  split at h
  · obtain ⟨_, b₂, hmodify, happend⟩ := BuildM.bind_eq_ok.mp h
    have hb₂ : Orders units b₁ b₂ := by
      cases hmodify
      refine orders_of_thins ?_
      rw [tree_applyPageAttributes]
      exact .refl _
    exact hlast (hb₁.trans hb₂) happend rfl rfl (.inl rfl)
  · obtain ⟨_, b₂, hspace, h⟩ := BuildM.bind_eq_ok.mp h
    obtain ⟨_, b₃, href, h⟩ := BuildM.bind_eq_ok.mp h
    obtain ⟨_, b₄, hbind, happend⟩ := BuildM.bind_eq_ok.mp h
    have hb₄ := (stilly_required _ _ _ _ hspace).trans
      ((stilly_libraryRef _ _ href).trans (stilly_bindSpace _ _ _ hbind))
    exact hlast (hb₁.trans hb₄.orders) happend rfl rfl (.inr rfl)
  · obtain ⟨file, b₂, hfile, h⟩ := BuildM.bind_eq_ok.mp h
    obtain ⟨id', b₃, happend, h⟩ := BuildM.bind_eq_ok.mp h
    obtain ⟨_, b₄, hinclude, h⟩ := BuildM.bind_eq_ok.mp h
    cases h
    obtain ⟨root, hinclude⟩ := BuildM.discard_eq_ok hinclude
    have hb₂ := hb₁.trans (stilly_required _ _ _ _ hfile).orders
    obtain ⟨hb, hid⟩ :=
      inclusion_orders hi (required_eq_ok hfile).1 happend hinclude (hp.of_extends hb₂.grown)
    exact ⟨hb₂.trans hb, hid⟩
  all_goals exact absurd h fail_ne_ok

end Builder

namespace Relaxed

open Builder

variable {units : Units} {includeUnit : Includer} {root : Nat} {b b' : Builder} {s s' : State}

-- The root and the open elements are no directives.
structure State.Roomy (s : State) (root : NodeId) (t : Tree) : Prop where
  root : t.Takes root
  frames : ∀ frame ∈ s.frames, t.Takes frame.id

theorem State.Roomy.of_extends {t u : Tree} (h : s.Roomy root t) (he : t.Extends u) :
    s.Roomy root u :=
  ⟨h.root.of_extends he, fun frame hframe => (h.frames frame hframe).of_extends he⟩

theorem State.Roomy.parent {t : Tree} (h : s.Roomy root t) : t.Takes (s.parent root) := by
  unfold State.parent
  cases hframes : s.frames with
  | nil => exact h.root
  | cons frame rest => exact h.frames frame (by rw [hframes]; exact List.mem_cons_self ..)

theorem Effect.orders (hi : IncludesOrderly units includeUnit) {parent : NodeId} {mark : Mark}
    {c : Cursor} {kind : Construct}
    (h : Effect includeUnit s parent mark c b kind s' b') (hp : b.tree.Takes parent)
    (hs : s.Roomy root b.tree) : Orders units b b' ∧ s'.Roomy root b'.tree := by
  have hadmits : b.tree.Admits units parent mark.unit := hp.admits _
  have hkeep : ∀ {b' : Builder} {c : Cursor}, Orders units b b' →
      Orders units b b' ∧ (s.resume c).Roomy root b'.tree := fun hb =>
    ⟨hb, (hs.of_extends hb.grown).root, (hs.of_extends hb.grown).frames⟩
  cases h with
  | comment _ _ hadd => exact hkeep (addComment_orders hadd hadmits)
  | directive _ _ _ hadd => exact hkeep (addDirective_orders hi hadd hadmits).1
  | script _ _ hadd | scriptElement _ _ hadd => exact hkeep (addScript_orders hadd hadmits).1
  | empty _ hstart hfinish =>
    obtain ⟨hb₁, -⟩ := startAction_orders hstart hadmits
    exact hkeep (hb₁.trans (orders_finishElement _ hfinish))
  | @filled _ _ _ _ _ _ id b₁ b₂ _ _ _ _ hstart hfill hfinish =>
    obtain ⟨hb₁, hid⟩ := startAction_orders hstart hadmits
    have hopen : Orders units b₁ { b₁ with tree := b₁.tree.openBody id } := orders_openBody id rfl
    have hid := hid.of_extends hopen.grown
    have hfilled : Orders units { b₁ with tree := b₁.tree.openBody id } b₂ := by
      rcases hfill with hfill | ⟨-, hfill⟩
      · exact addText_orders hfill hid
      · exact addVerbatim_orders hfill hid
    exact hkeep (hb₁.trans (hopen.trans (hfilled.trans (orders_finishElement _ hfinish))))
  | @opened _ _ _ _ id b₁ _ _ hstart =>
    obtain ⟨hb₁, hid⟩ := startAction_orders hstart hadmits
    have hopen : Orders units b₁ { b₁ with tree := b₁.tree.openBody id } := orders_openBody id rfl
    have hb := hb₁.trans hopen
    obtain ⟨hroot, hframes⟩ := hs.of_extends hb.grown
    exact ⟨hb, hroot, List.forall_mem_cons.mpr ⟨hid.of_extends hopen.grown, hframes⟩⟩

theorem Move.orders (hi : IncludesOrderly units includeUnit) {next : Option State}
    (h : Move includeUnit root s b next b') (hs : s.Roomy root b.tree) :
    Orders units b b' ∧ ∀ s', next = some s' → s'.Roomy root b'.tree := by
  cases h with
  | close hclosing hflush hfinish =>
    have hb : Orders units b b' :=
      (addText_orders hflush hs.parent).trans (orders_finishElement _ hfinish)
    refine ⟨hb, ?_⟩
    rintro _ ⟨⟩
    obtain ⟨hroot, hframes⟩ := hs.of_extends hb.grown
    exact ⟨hroot, fun frame hframe => hframes frame (List.mem_of_mem_tail hframe)⟩
  | stop _ _ hflush _ => exact ⟨addText_orders hflush hs.parent, nofun⟩
  | construct _ _ _ hflush hread =>
    have hb₁ : Orders units b _ := addText_orders hflush hs.parent
    have hs₁ := hs.of_extends hb₁.grown
    obtain ⟨hb, hs'⟩ := (readConstruct_effect hread).orders hi hs₁.parent hs₁
    refine ⟨hb₁.trans hb, ?_⟩
    rintro _ ⟨⟩
    exact hs'
  | text _ _ _ hread =>
    obtain ⟨rfl, piece, width, -, rfl⟩ := readText_eq_ok hread
    refine ⟨.refl _, ?_⟩
    rintro _ ⟨⟩
    exact ⟨hs.root, hs.frames⟩

-- By induction on the steps that are left.
theorem run_orders (hi : IncludesOrderly units includeUnit) {fuel : Nat} {v : Unit}
    (h : run includeUnit root fuel s b = .ok v b') (hs : s.Roomy root b.tree) :
    Orders units b b' := by
  induction fuel generalizing s b with
  | zero =>
    cases h
    exact .refl _
  | succ fuel ih =>
    unfold run at h
    obtain ⟨next, b₁, hstep, h⟩ := BuildM.bind_eq_ok.mp h
    obtain ⟨hb₁, hnext⟩ := (step_move hstep).orders hi hs
    cases next with
    | none =>
      cases h
      exact hb₁
    | some s' => exact hb₁.trans (ih h (hnext s' rfl))

theorem read_orders (hi : IncludesOrderly units includeUnit) {unit : String} {text : List Char}
    {v : Unit} (h : read includeUnit root unit text b = .ok v b') (hroot : b.tree.Takes root) :
    Orders units b b' :=
  run_orders hi h ⟨hroot, nofun⟩

end Relaxed
end PageCompiler
