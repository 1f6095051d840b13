import PageCompiler.Proofs.Checking.ScanOptions
import PageCompiler.Proofs.Markup.Tiling
import PageCompiler.Proofs.Reading.Stages

-- Building changes the body of the one node that it is told, and makes nodes; so that a body that
-- has been closed is not changed any more.
namespace PageCompiler

open Text
open Markup (Balanced Located)

-- The texts of documents, by the names of their units.
abbrev Documents := String → List Char → Prop

namespace Node

variable {docs : Documents} {n m : Node}

-- An action whose body is left as it is.
def TakesVerbatim (n : Node) : Prop :=
  (n.kind.custom?.map fun data => data.tag.bodyContent) = some .verbatim

-- There is no document to tell what the body has to be.
def Loose (docs : Documents) (n : Node) : Prop :=
  n.TakesVerbatim → ∀ text, ¬docs n.mark.unit text

theorem Alike.takesVerbatim_iff (h : n.Alike m) : m.TakesVerbatim ↔ n.TakesVerbatim := by
  rw [TakesVerbatim, TakesVerbatim, h.kind.custom?_eq]

theorem Loose.of_alike (hn : n.Loose docs) (h : n.Alike m) : m.Loose docs := by
  intro hm text
  rw [h.mark_eq]
  exact hn (h.takesVerbatim_iff.mp hm) text

theorem not_takesVerbatim (h : n.kind.custom? = none) : ¬n.TakesVerbatim := by
  rw [TakesVerbatim, h]
  nofun

theorem TakesVerbatim.isNamed (h : n.TakesVerbatim) : n.kind.isNamed = false := by
  cases hk : n.kind <;> first | rfl | exact absurd h (not_takesVerbatim (by rw [hk]; rfl))

theorem loose_of_custom? (h : n.kind.custom? = none) : n.Loose docs := fun hn =>
  absurd hn (not_takesVerbatim h)

end Node

namespace Tree

variable {docs : Documents} {held : Option NodeId} {t u v : Tree} {id parent child : Nat}
  {n : Node} {unit : String} {text : List Char}

-- The body of an element of a document, when it is left as it is: the text between the tag that
-- opens the element and the one that closes it is all of it. An empty tag comes without a body.
inductive BodyKept (t : Tree) (id : NodeId) (unit : String) (text : List Char) : Prop
  | empty {before behind : List Located} {tag : Located} {inside : List Char}
      (hevents : (Markup.read text).events = before ++ tag :: behind)
      (htag : tag.event = .empty inside) (hmark : t.mark id = .ofOffset unit text tag.start)
      (hname : (t.node id).name = String.ofList (Markup.StartTag.name inside))
      (hbody : (t.node id).body = none)
  | filled {before inner behind : List Located} {first last : Located}
      {inside name s : List Char}
      (hevents : (Markup.read text).events = before ++ first :: (inner ++ last :: behind))
      (hfirst : first.event = .opening inside)
      (hmark : t.mark id = .ofOffset unit text first.start)
      (hname : (t.node id).name = String.ofList (Markup.StartTag.name inside))
      (hinner : Balanced (inner.map Located.event))
      (hlast : last.event = .closing name) (hclosing : String.ofList name = (t.node id).name)
      (hslice : slice? first.stop last.start text = some s) (hbody : (t.node id).body.isSome)
      (hchildren : (t.children id).map t.kind = if s = [] then [] else [.text (.ofChars s)])

theorem BodyKept.congr (h : t.BodyKept id unit text) (hnode : u.node id = t.node id)
    (hkind : ∀ c ∈ t.children id, u.kind c = t.kind c) : u.BodyKept id unit text := by
  have hmark : u.mark id = t.mark id := congrArg Node.mark hnode
  have hchildren : u.children id = t.children id := congrArg Node.children hnode
  cases h with
  | empty hevents htag hplace hname hbody =>
    exact .empty hevents htag (hmark.trans hplace) (by rwa [hnode]) (by rwa [hnode])
  | filled hevents hfirst hplace hname hinner hlast hclosing hslice hbody hkinds =>
    refine .filled hevents hfirst (hmark.trans hplace) (by rwa [hnode]) hinner hlast (by rwa [hnode])
      hslice (by rwa [hnode]) ?_
    rw [hchildren, List.map_congr_left hkind, hkinds]

-- The bodies that are left as they are have been read, but for one that is still open.
structure BodiesKept (docs : Documents) (held : Option NodeId) (t : Tree) : Prop where
  wellFormed : t.WellFormed
  kept : ∀ id < t.size, held ≠ some id → (t.node id).TakesVerbatim →
    ∀ text, docs (t.mark id).unit text → t.BodyKept id (t.mark id).unit text

-- A node whose body may be changed.
structure Free (docs : Documents) (held : Option NodeId) (t : Tree) (id : NodeId) : Prop where
  lt_size : id < t.size
  free : held = some id ∨ (t.node id).Loose docs

theorem Free.of_extends (h : t.Free docs held id) (he : t.Extends u) : u.Free docs held id :=
  ⟨h.lt_size.trans_le he.size_le, h.free.imp_right fun hn => hn.of_alike (he.node id h.lt_size)⟩

theorem Free.hold (h : t.Free docs none id) (held : Option NodeId) : t.Free docs held id :=
  ⟨h.lt_size, h.free.imp_left nofun⟩

theorem BodiesKept.hold (h : t.BodiesKept docs none) (held : Option NodeId) :
    t.BodiesKept docs held :=
  ⟨h.wellFormed, fun id hid _ => h.kept id hid nofun⟩

-- The body that was open has been read.
theorem BodiesKept.release (h : t.BodiesKept docs (some id))
    (hid : (t.node id).TakesVerbatim →
      ∀ text, docs (t.mark id).unit text → t.BodyKept id (t.mark id).unit text) :
    t.BodiesKept docs none := by
  refine ⟨h.wellFormed, fun i hi _ => ?_⟩
  by_cases hne : i = id
  · exact hne ▸ hid
  · exact h.kept i hi fun heq => hne (Option.some.inj heq).symm

-- Nodes may be put in, and the bodies of free nodes changed.
theorem BodiesKept.of_extends (h : t.BodiesKept docs held) (hu : u.WellFormed) (he : t.Extends u)
    (hkept : ∀ id < t.size, ¬t.Free docs held id →
      u.node id = t.node id ∧ ∀ c ∈ t.children id, u.kind c = t.kind c)
    (hnew : ∀ id, t.size ≤ id → id < u.size → held = some id ∨ (u.node id).Loose docs) :
    u.BodiesKept docs held := by
  refine ⟨hu, fun id hid hheld htakes text hdoc => ?_⟩
  rcases Nat.lt_or_ge id t.size with hlt | hge
  · have halike := he.node id hlt
    have hmark : u.mark id = t.mark id := halike.mark_eq
    rw [hmark] at hdoc ⊢
    have htakes' := halike.takesVerbatim_iff.mp htakes
    have hnot : ¬t.Free docs held id := fun hfree =>
      (hfree.free.resolve_left hheld) htakes' text hdoc
    obtain ⟨hnode, hkind⟩ := hkept id hlt hnot
    exact (h.kept id hlt hheld htakes' text hdoc).congr hnode hkind
  · exact absurd hdoc ((hnew id hge hid).resolve_left hheld htakes text)

-- What has been read is left alone.
structure Spares (docs : Documents) (held : Option NodeId) (t u : Tree) : Prop where
  grown : t.Extends u
  bodies : t.BodiesKept docs held → u.BodiesKept docs held

theorem Spares.refl (t : Tree) : t.Spares docs held t := ⟨.refl t, id⟩

theorem Spares.trans (h : t.Spares docs held u) (h' : u.Spares docs held v) :
    t.Spares docs held v :=
  ⟨h.grown.trans h'.grown, fun ht => h'.bodies (h.bodies ht)⟩

theorem Spares.free (h : t.Spares docs held u) (hid : t.Free docs held id) : u.Free docs held id :=
  hid.of_extends h.grown

theorem spares_of_nodes (h : u.nodes = t.nodes) : t.Spares docs held u := by
  have hnode : ∀ id, u.node id = t.node id := fun id => by rw [node, node, h]
  have hsize : u.size = t.size := by rw [size, size, h]
  have he : t.Extends u := ⟨hsize.ge, fun id _ => by rw [hnode]; exact .refl _⟩
  refine ⟨he, fun ht => ht.of_extends ?_ he (fun id _ _ => ⟨hnode id, fun c _ => ?_⟩) ?_⟩
  · exact ht.wellFormed.of_sublist hsize
      (fun id => by rw [children, children, hnode]) fun id => by rw [Tree.parent, Tree.parent, hnode]
  · rw [kind, kind, hnode]
  · exact fun id hle hlt => absurd hle (hsize ▸ hlt).not_ge

theorem kind_append_of_lt (hid : id < t.size) : (t.append parent n).2.kind id = t.kind id := by
  rw [kind, node_append, if_neg hid.ne]
  split <;> rfl

theorem spares_append (hp : t.Free docs held parent) (hn : n.children = [])
    (hnew : held = some t.size ∨ n.Loose docs) : t.Spares docs held (t.append parent n).2 := by
  have he := t.extends_append parent n
  refine ⟨he, fun ht => ht.of_extends (ht.wellFormed.append hn) he (fun id hid hnot => ?_) ?_⟩
  · have hne : ¬(id = parent ∧ id < t.size) := fun h => hnot (h.1 ▸ hp)
    refine ⟨?_, fun c hc => kind_append_of_lt (ht.wellFormed.child_lt hc).2⟩
    rw [node_append, if_neg hid.ne, if_neg hne]
  · intro id hle hlt
    obtain rfl : id = t.size := Nat.le_antisymm (Nat.le_of_lt_succ (hlt.trans_eq size_append)) hle
    rw [node_append_last]
    exact hnew

theorem spares_appendAll {nodes : List Node} (hp : t.Free docs held parent)
    (hnodes : ∀ n ∈ nodes, n.children = [] ∧ n.Loose docs) :
    t.Spares docs held (Builder.appendAll t parent nodes) := by
  induction nodes generalizing t with
  | nil => exact .refl t
  | cons n nodes ih =>
    obtain ⟨⟨hn, hloose⟩, hrest⟩ := List.forall_mem_cons.mp hnodes
    have hfirst := spares_append hp hn (.inr hloose)
    exact hfirst.trans (ih (hfirst.free hp) hrest)

-- A body is changed, and the kinds of nodes are not.
theorem spares_modify {f : Node → Node} (hid : t.Free docs held id)
    (hchildren : ∀ n : Node, List.Sublist (f n).children n.children)
    (halike : ∀ n : Node, n.Alike (f n)) (hkind : ∀ n : Node, (f n).kind = n.kind) :
    t.Spares docs held (t.modify id f) := by
  have he := (alike_modify halike id : t.Alike (t.modify id f)).extends
  refine ⟨he, fun ht => ht.of_extends ?_ he (fun i _ hnot => ⟨?_, fun c _ => ?_⟩) ?_⟩
  · exact ht.wellFormed.modify hchildren fun n => (halike n).parent_eq
  · have hne : ¬(i = id ∧ i < t.size) := fun h => hnot (h.1 ▸ hid)
    rw [node_modify, if_neg hne]
  · rw [kind, node_modify]
    split
    · exact hkind _
    · rfl
  · exact fun i hle hlt => absurd hle (hlt.trans_eq size_modify).not_ge

theorem spares_openBody (hid : t.Free docs held id) : t.Spares docs held (t.openBody id) :=
  spares_modify hid (fun _ => .refl _) (fun n => n.alike_body _) fun _ => rfl

theorem node_openBody (hid : id < t.size) :
    (t.openBody id).node id = { t.node id with body := some (t.children id) } := by
  rw [openBody, node_modify, if_pos ⟨rfl, hid⟩]
  rfl

theorem spares_removeChild (hid : t.Free docs held id) :
    t.Spares docs held (t.removeChild id child) := by
  refine spares_modify hid (fun n => ?_) (fun n => n.alike_body _) fun _ => rfl
  cases hb : n.body with
  | none => simp [Node.children, hb]
  | some ids => simp [Node.children, hb]

-- A text is trimmed, whose parent is free.
theorem spares_modifyText {f : TextRun → TextRun} (hf : ∀ r : TextRun, r.TrimsTo (f r))
    (hid : t.Free docs held id) (hchild : child ∈ t.children id) :
    t.Spares docs held (t.modifyText child f) := by
  have halike := alike_modifyText hf t child
  have he := halike.extends
  have hkind : ∀ i, i ≠ child → (t.modifyText child f).node i = t.node i := fun i hi => by
    rw [modifyText, node_modify, if_neg fun h => hi h.1]
  refine ⟨he, fun ht => ht.of_extends ?_ he (fun i hi hnot => ⟨?_, fun c hc => ?_⟩) ?_⟩
  · exact ht.wellFormed.modify (fun n => by cases n.kind <;> exact .refl _) fun n => by
      cases n.kind <;> rfl
  · by_cases hne : i = child
    · -- A text is free as it is.
      rw [modifyText, node_modify, if_pos ⟨hne, hi⟩]
      split
      · rename_i run hk
        exact absurd ⟨hi, .inr (Node.loose_of_custom? (by rw [hk]; rfl))⟩ hnot
      · rfl
    · exact hkind i hne
  · by_cases hne : c = child
    · have hparent := ht.wellFormed.parent_eq (hne ▸ hc : child ∈ t.children i)
      rw [ht.wellFormed.parent_eq hchild] at hparent
      exact absurd (Option.some.inj hparent ▸ hid) hnot
    · rw [kind, kind, hkind c hne]
  · exact fun i hle hlt => absurd hle (halike.size_eq ▸ hlt).not_ge

theorem children_modifyText (t : Tree) (child : Nat) (f : TextRun → TextRun) (i : Nat) :
    (t.modifyText child f).children i = t.children i := by
  rw [modifyText, children, node_modify]
  split
  · split <;> rfl
  · rfl

end Tree

namespace Builder

variable {docs : Documents} {held : Option NodeId} {b b' : Builder} {parent id : Nat} {n : Node}
  {mark : Mark}

-- The body of one node is changed, which is free to be.
def Touches (docs : Documents) (held : Option NodeId) (id : NodeId) (b b' : Builder) : Prop :=
  b.tree.Free docs held id → b.tree.Spares docs held b'.tree

instance : IsPreorder Builder (Touches docs held id) where
  refl b _ := .refl b.tree
  trans _ _ _ h h' hid := (h hid).trans (h' ((h hid).free hid))

theorem Still.spares (h : b.Still b') : b.tree.Spares docs held b'.tree :=
  Tree.spares_of_nodes h.nodes_eq

theorem touches_removeBlanks (id : NodeId) :
    Relates (Touches docs held id) (modifyTree (removeBlanks · id)) := by
  refine .of_modify fun b hid => ?_
  show b.tree.Spares docs held (removeBlanks b.tree id)
  unfold removeBlanks
  generalize b.tree.children id = ids
  generalize b.tree = t at hid
  induction ids generalizing t with
  | nil => exact .refl t
  | cons child ids ih =>
    rw [List.foldl_cons]
    split
    · have hfirst : t.Spares docs held (t.removeChild id child) := Tree.spares_removeChild hid
      exact hfirst.trans (ih _ (hfirst.free hid))
    · exact ih t hid

theorem touches_trimBody (id : NodeId) :
    Relates (Touches docs held id) (modifyTree (trimBody · id)) := by
  refine .of_modify fun b hid => ?_
  show b.tree.Spares docs held (trimBody b.tree id)
  unfold trimBody
  dsimp only
  cases hfirst : (b.tree.children id).head? with
  | none =>
    rw [List.head?_eq_none_iff.mp hfirst]
    exact .refl b.tree
  | some first =>
    have hmem := List.mem_of_mem_head? hfirst
    have htrimmed := Tree.spares_modifyText TextRun.trimsTo_trimStart hid hmem
    cases hlast : (b.tree.children id).getLast? with
    | none => exact htrimmed
    | some last =>
      have hmem' := List.mem_of_mem_getLast? hlast
      rw [← Tree.children_modifyText b.tree first TextRun.trimStart] at hmem'
      exact htrimmed.trans
        (Tree.spares_modifyText TextRun.trimsTo_trimEnd (htrimmed.free hid) hmem')

theorem touches_finishElement (id : NodeId) :
    Relates (Touches docs held id) (finishElement id) := by
  unfold finishElement
  with_reducible repeat' first
    | exact touches_removeBlanks id
    | exact touches_trimBody id
    | exact .pure _
    | exact .get
    | exact .fail _ _
    | refine .bind ?_ fun _ => ?_
    | split
    | dsimp only

theorem touches_append (hn : n.children = []) (hloose : n.Loose docs) :
    Relates (Touches docs held parent) (append parent n) := by
  intro b id b' h hp
  obtain ⟨-, rfl⟩ := append_eq_ok h
  exact Tree.spares_append hp hn (.inr hloose)

theorem touches_addText (text : List Char) (mark : Mark) :
    Relates (Touches docs held parent) (addText parent text mark) := by
  intro b u b' h hp
  rw [addText_eq] at h
  split at h
  · exact absurd h fail_ne_ok
  · rename_i hparse
    cases h
    refine Tree.spares_appendAll hp fun n hn => ?_
    obtain ⟨hchildren, -, hcustom, -⟩ :=
      partNodes_spec mark text 0 (Composite.legible_of_parse hparse) n hn
    exact ⟨hchildren, Node.loose_of_custom? hcustom⟩

theorem touches_addVerbatim (text : List Char) (mark : Mark) :
    Relates (Touches docs held parent) (addVerbatim parent text mark) := by
  unfold addVerbatim
  split
  · exact .pure _
  · exact .bind (touches_append rfl (Node.loose_of_custom? rfl)) fun _ => .pure _

theorem touches_addComment (text : List Char) (mark : Mark) :
    Relates (Touches docs held parent) (addComment parent text mark) :=
  .bind (touches_append rfl (Node.loose_of_custom? rfl)) fun _ => .pure _

-- An included unit changes no body but the one of the node it is put under.
def IncludesSparing (docs : Documents) (includeUnit : Includer) : Prop :=
  ∀ (parent : NodeId) (target : String) (mark : Mark),
    Relates (Touches docs none parent) (includeUnit parent target .included mark)

theorem node_of_append (h : append parent n b = .ok id b') :
    id < b'.tree.size ∧ b'.tree.node id = { n with parent := some parent } := by
  obtain ⟨rfl, rfl⟩ := append_eq_ok h
  exact ⟨Nat.lt_of_lt_of_eq (Nat.lt_succ_self _) Tree.size_append.symm, Tree.node_append_last ..⟩

-- A node that is no custom action is put in.
theorem append_spares (h : append parent n b = .ok id b') (hp : b.tree.Free docs held parent)
    (hn : n.children = []) (hcustom : n.kind.custom? = none) :
    b.tree.Spares docs held b'.tree ∧ id < b'.tree.size ∧
      (b'.tree.node id).kind.custom? = none := by
  obtain ⟨hlt, hnode⟩ := node_of_append h
  exact ⟨touches_append hn (Node.loose_of_custom? hcustom) h hp, hlt, by rw [hnode]; exact hcustom⟩

theorem addScript_spares {kind : ScriptKind} {code : Script}
    (h : addScript parent kind code mark b = .ok id b') (hp : b.tree.Free docs held parent) :
    b.tree.Spares docs held b'.tree ∧ id < b'.tree.size ∧
      (b'.tree.node id).kind.custom? = none :=
  append_spares h hp (by cases code <;> rfl) rfl

theorem addDirective_spares {includeUnit : Includer} (hi : IncludesSparing docs includeUnit)
    {name : String} {attrs : List Attribute}
    (h : addDirective includeUnit parent name attrs mark b = .ok id b')
    (hp : b.tree.Free docs none parent) :
    b.tree.Spares docs none b'.tree ∧ id < b'.tree.size ∧
      (b'.tree.node id).kind.custom? = none := by
  cases addDirective_eq_ok h with
  | page happend =>
    have htree := tree_applyPageAttributes b attrs
    obtain ⟨hb, hid⟩ := append_spares happend (htree.symm ▸ hp) rfl rfl
    exact ⟨htree ▸ hb, hid⟩
  | taglib hstill happend =>
    have hb₁ : b.tree.Spares docs none _ := hstill.spares
    obtain ⟨hb, hid⟩ := append_spares happend (hb₁.free hp) rfl rfl
    exact ⟨hb₁.trans hb, hid⟩
  | inclusion hstill happend hinclude =>
    have hb₁ : b.tree.Spares docs none _ := hstill.spares
    obtain ⟨hb₂, hid, hcustom⟩ := append_spares happend (hb₁.free hp) rfl rfl
    have hb := hi _ _ _ hinclude ⟨hid, .inr (Node.loose_of_custom? hcustom)⟩
    refine ⟨hb₁.trans (hb₂.trans hb), hid.trans_le hb.grown.size_le, ?_⟩
    rw [(hb.grown.node _ hid).kind.custom?_eq, hcustom]

-- A node has been put in whose body is still to be read.
structure Opens (docs : Documents) (b : Builder) (id : NodeId) (b' : Builder) : Prop where
  grown : b.tree.Extends b'.tree
  bodies : b.tree.BodiesKept docs none → b'.tree.BodiesKept docs (some id)
  lt_size : id < b'.tree.size

theorem Opens.of_spares (h : b.tree.Spares docs none b'.tree) (hid : id < b'.tree.size) :
    Opens docs b id b' :=
  ⟨h.grown, fun hb => (h.bodies hb).hold _, hid⟩

theorem Opens.openBody (h : Opens docs b id b') :
    Opens docs b id { b' with tree := b'.tree.openBody id } := by
  have hspares : b'.tree.Spares docs (some id) (b'.tree.openBody id) :=
    Tree.spares_openBody ⟨h.lt_size, .inl rfl⟩
  exact ⟨h.grown.trans hspares.grown, fun hb => hspares.bodies (h.bodies hb),
    h.lt_size.trans_le hspares.grown.size_le⟩

theorem append_opens (h : append parent n b = .ok id b') (hp : b.tree.Free docs none parent)
    (hn : n.children = []) : Opens docs b id b' := by
  obtain ⟨rfl, rfl⟩ := append_eq_ok h
  have hspares := Tree.spares_append (hp.hold (some b.tree.size)) hn (.inl rfl)
  exact ⟨hspares.grown, fun hb => hspares.bodies (hb.hold _),
    Nat.lt_of_lt_of_eq (Nat.lt_succ_self _) Tree.size_append.symm⟩

theorem startAction_opens {name : String} {attrs : List Attribute} {form : UnitForm}
    (h : startAction parent name attrs mark form b = .ok id b')
    (hp : b.tree.Free docs none parent) :
    Opens docs b id b' ∧ ∃ kind, b'.tree.node id =
      { kind, mark, name, attributes := attrs, parent := some parent } := by
  obtain ⟨kind, b₁, hstill, -, -, happend⟩ := startAction_eq_ok h
  have hb₁ : b.tree.Spares docs none b₁.tree := hstill.spares
  have hopens := append_opens happend (hb₁.free hp) rfl
  exact ⟨⟨hb₁.grown.trans hopens.grown, fun hb => hopens.bodies (hb₁.bodies hb),
    hopens.lt_size⟩, kind, (node_of_append happend).2⟩

end Builder

namespace Relaxed

open Builder

variable {docs : Documents} {includeUnit : Includer} {root : Nat} {b b' : Builder} {s s' : State}

-- No document is being read, and nodes are put under the root and the elements that are open.
structure State.Roams (s : State) (docs : Documents) (root : NodeId) (b : Builder) : Prop where
  undocumented : ∀ text, ¬docs s.cursor.mark.unit text
  root : b.tree.Free docs none root
  frames : ∀ frame ∈ s.frames, b.tree.Free docs none frame.id

theorem State.Roams.advance (h : s.Roams docs root b) (hb : b.tree.Spares docs none b'.tree) :
    s.Roams docs root b' :=
  ⟨h.undocumented, hb.free h.root, fun frame hframe => hb.free (h.frames frame hframe)⟩

theorem State.Roams.parent (h : s.Roams docs root b) : b.tree.Free docs none (s.parent root) := by
  unfold State.parent
  cases hframes : s.frames with
  | nil => exact h.root
  | cons frame rest => exact h.frames frame (by rw [hframes]; exact List.mem_cons_self ..)

theorem State.Roams.leads (h : s.Roams docs root b) {frames : List Frame}
    (hc : s.cursor.Leads s'.cursor) (hframes : s'.frames = frames)
    (hfree : ∀ frame ∈ frames, b.tree.Free docs none frame.id) : s'.Roams docs root b :=
  ⟨by rw [hc.unit_eq]; exact h.undocumented, h.root, hframes ▸ hfree⟩

variable {parent : Nat} {mark : Mark}

theorem startAction_spares {id : Nat} {name : String} {attrs : List Attribute} {form : UnitForm}
    (h : startAction parent name attrs mark form b = .ok id b')
    (hp : b.tree.Free docs none parent) (hmark : ∀ text, ¬docs mark.unit text) :
    b.tree.Spares docs none b'.tree ∧ b'.tree.Free docs none id := by
  obtain ⟨hopens, kind, hnode⟩ := startAction_opens h hp
  have hloose : (b'.tree.node id).Loose docs := by
    rw [hnode]
    exact fun _ => hmark
  exact ⟨⟨hopens.grown, fun hb => (hopens.bodies hb).release fun htakes text hdoc =>
    absurd hdoc (hloose htakes text)⟩, hopens.lt_size, .inr hloose⟩

theorem Effect.spares (hi : IncludesSparing docs includeUnit) {c : Cursor} {kind : Construct}
    (h : Effect includeUnit s parent mark c b kind s' b') (hp : b.tree.Free docs none parent)
    (hmark : ∀ text, ¬docs mark.unit text)
    (hframes : ∀ frame ∈ s.frames, b.tree.Free docs none frame.id) :
    b.tree.Spares docs none b'.tree ∧ ∀ frame ∈ s'.frames, b'.tree.Free docs none frame.id := by
  have hkeep : ∀ {b' : Builder}, b.tree.Spares docs none b'.tree →
      ∀ frame ∈ s.frames, b'.tree.Free docs none frame.id :=
    fun hb frame hframe => hb.free (hframes frame hframe)
  cases h with
  | comment _ _ hadd =>
    have hb := touches_addComment _ _ hadd hp
    exact ⟨hb, hkeep hb⟩
  | directive _ _ _ hadd =>
    have hb := (addDirective_spares hi hadd hp).1
    exact ⟨hb, hkeep hb⟩
  | script _ _ hadd | scriptElement _ _ hadd =>
    have hb := (addScript_spares hadd hp).1
    exact ⟨hb, hkeep hb⟩
  | empty _ hstart hfinish =>
    obtain ⟨hb₁, hid⟩ := startAction_spares hstart hp hmark
    have hb := hb₁.trans (touches_finishElement _ hfinish hid)
    exact ⟨hb, hkeep hb⟩
  | @filled _ _ _ _ _ _ id b₁ b₂ _ _ _ _ hstart hfill hfinish =>
    obtain ⟨hb₁, hid⟩ := startAction_spares hstart hp hmark
    have hopen : b₁.tree.Spares docs none (b₁.tree.openBody id) := Tree.spares_openBody hid
    have hfilled : (b₁.tree.openBody id).Spares docs none b₂.tree := by
      rcases hfill with hfill | ⟨-, hfill⟩
      · exact touches_addText _ _ hfill (hopen.free hid)
      · exact touches_addVerbatim _ _ hfill (hopen.free hid)
    have hb₂ := hopen.trans hfilled
    have hb := hb₁.trans (hb₂.trans (touches_finishElement _ hfinish (hb₂.free hid)))
    exact ⟨hb, hkeep hb⟩
  | @opened _ _ _ _ id b₁ _ _ hstart =>
    obtain ⟨hb₁, hid⟩ := startAction_spares hstart hp hmark
    have hopen : b₁.tree.Spares docs none (b₁.tree.openBody id) := Tree.spares_openBody hid
    have hb := hb₁.trans hopen
    exact ⟨hb, List.forall_mem_cons.mpr ⟨hopen.free hid, hkeep hb⟩⟩

theorem Move.spares (hi : IncludesSparing docs includeUnit) {next : Option State}
    (h : Move includeUnit root s b next b') (hs : s.Roams docs root b) :
    b.tree.Spares docs none b'.tree ∧
      ∀ s', next = some s' → ∀ frame ∈ s'.frames, b'.tree.Free docs none frame.id := by
  cases h with
  | @close frame _ _ _ hclosing hflush hfinish =>
    have hb₁ := touches_addText _ _ hflush hs.parent
    have hmem : frame ∈ s.frames := by
      obtain ⟨first, hfirst, hclosing⟩ := Option.bind_eq_some_iff.mp hclosing
      obtain ⟨behind, -, heq⟩ := Option.bind_eq_some_iff.mp hclosing
      cases heq
      exact List.mem_of_mem_head? hfirst
    have hb := hb₁.trans (touches_finishElement _ hfinish (hb₁.free (hs.frames frame hmem)))
    refine ⟨hb, ?_⟩
    rintro _ ⟨⟩ other hother
    exact hb.free (hs.frames other (List.mem_of_mem_tail hother))
  | stop _ _ hflush _ => exact ⟨touches_addText _ _ hflush hs.parent, nofun⟩
  | construct _ _ _ hflush hread =>
    have hb₁ := touches_addText _ _ hflush hs.parent
    have hs₁ := hs.advance hb₁
    obtain ⟨hb, hframes⟩ :=
      (readConstruct_effect hread).spares hi hs₁.parent hs₁.undocumented hs₁.frames
    refine ⟨hb₁.trans hb, ?_⟩
    rintro _ ⟨⟩
    exact hframes
  | text _ _ _ hread =>
    obtain ⟨rfl, piece, width, -, rfl⟩ := readText_eq_ok hread
    refine ⟨.refl _, ?_⟩
    rintro _ ⟨⟩
    exact hs.frames

-- By induction on the steps that are left.
theorem run_spares (hi : IncludesSparing docs includeUnit) {fuel : Nat} {u : Unit}
    (h : run includeUnit root fuel s b = .ok u b') (hs : s.Roams docs root b) :
    b.tree.Spares docs none b'.tree := by
  induction fuel generalizing s b with
  | zero =>
    cases h
    exact .refl _
  | succ fuel ih =>
    unfold run at h
    obtain ⟨next, b₁, hstep, h⟩ := BuildM.bind_eq_ok.mp h
    obtain ⟨hb₁, hframes⟩ := (step_move hstep).spares hi hs
    cases next with
    | none =>
      cases h
      exact hb₁
    | some s' =>
      exact hb₁.trans (ih h ((hs.advance hb₁).leads (leads_step hstep).1 rfl (hframes s' rfl)))

theorem touches_read (hi : IncludesSparing docs includeUnit) {unit : String} (text : List Char)
    (hunit : ∀ text, ¬docs unit text) :
    Relates (Touches docs none root) (read includeUnit root unit text) := by
  intro b u b' h hroot
  exact run_spares hi h ⟨hunit, hroot, fun _ hframe => nomatch hframe⟩

end Relaxed

end PageCompiler
