import PageCompiler.Proofs.Markup.Entities
import PageCompiler.Proofs.Reading.Growth
import PageCompiler.Proofs.Reading.TextRuns

-- Between the stages at which nodes are made nothing happens to the tree; what a stage makes, it
-- takes from the text of a unit, and it says there where. What holds of the nodes of each stage
-- holds of the page.
namespace PageCompiler

open Text

-- An opening of raw code that is escaped loses its escape.
def Letter.opening : Letter := ⟨[], ['\\', '%'], '%'⟩

-- Template text goes on until a construct or an end tag begins.
def Relaxed.Halts (s : List Char) : Prop :=
  s = [] ∨ (∃ b, (construct? b s).isSome) ∨ ∃ name, (Cursor.behindEndTag? name s).isSome

-- A run of template text in a unit. Text in which constructs stand is written as it is read but for
-- escaped openings; in a document it is character data between tags and comments. A document may
-- begin with a mark that is not counted.
structure RunIn (data : UnitRoot) (text : List Char) (mark : Mark) (ls : Letters) : Prop where
  unit_eq : mark.unit = data.unit
  roomy : ∀ l ∈ ls, l.Roomy
  relaxed : data.form = .relaxed → ∀ l ∈ ls, l.Literal ∨ l = .opening
  place : ∃ skipped front rest, RunAt text skipped front mark ls rest ∧
    (skipped = [] ∨ data.form = .strict ∧ ∃ c : Char, skipped = [c] ∧ c.toNat = 0xFEFF) ∧
    (data.form = .relaxed → Relaxed.Halts rest) ∧
    (data.form = .strict → Markup.Gathered text front ls rest)

theorem Letter.roomy_opening : opening.Roomy := .inr (by decide)

-- A node under which others may be put.
def Tree.Hosts (t : Tree) (id : NodeId) : Prop := id < t.size ∧ t.kind id ≠ .pageDirective

theorem Tree.Hosts.of_extends {t u : Tree} {id : NodeId} (h : t.Hosts id) (he : t.Extends u) :
    u.Hosts id := by
  refine ⟨h.1.trans_le he.size_le, fun hpage => h.2 ?_⟩
  have hkind : (u.node id).kind = .pageDirective := hpage
  exact ((he.node id h.1).kind.eq (by rw [hkind]; rfl)).trans hkind

namespace Builder

-- Units with what their roots say and their texts.
abbrev Units := UnitRoot → List Char → Prop

-- In a document others may be put under a page directive, too.
def Holds (b : Builder) (data : UnitRoot) (id : NodeId) : Prop :=
  data.form = .relaxed → b.tree.Hosts id

-- One stage of reading. What is made is taken from one of the given units.
inductive Stage (units : Units) : Builder → Builder → Prop
  | quiet {b b' : Builder} (h : b.Quiet b') : Stage units b b'
  | enter (b : Builder) (names : List String) : Stage units b { b with units := names }
  | root (b : Builder) (parent : NodeId) {data : UnitRoot} {text : List Char}
      (hunit : units data text) (hhost : b.tree.Hosts parent) :
      Stage units b { b with
        tree := (b.tree.append parent
          { kind := .root data, mark := .start data.unit, body := some [] }).2 }
  | run (b : Builder) (parent : NodeId) {data : UnitRoot} {text : List Char} {mark : Mark}
      {ls : Letters} {c : Composite} (hunit : units data text) (hheld : b.Holds data parent)
      (hrun : RunIn data text mark ls) (hparse : Composite.parse b.scan ls.values = .ok c) :
      Stage units b { b with
        tree := appendAll b.tree parent (partNodes mark ls.values 0 c.parts) }
  | verbatim (b : Builder) (parent : NodeId) {data : UnitRoot} {text : List Char} (mark : Mark)
      (s : List Char) (hunit : units data text) (hheld : b.Holds data parent)
      (hmark : mark.unit = data.unit)
      (hparent : data.form = .relaxed → bodyContent? b.tree parent = some .verbatim) :
      Stage units b { b with tree := (b.tree.append parent { kind := .text (.ofChars s), mark }).2 }
  | directive (b : Builder) (parent : NodeId) {data : UnitRoot} {text : List Char} (name : String)
      {attrs : List Attribute} {mark : Mark} (hunit : units data text) (hheld : b.Holds data parent)
      (hmark : mark.unit = data.unit)
      (hattrs : ∀ a ∈ attrs, a.mark.unit = data.unit ∧ ∃ raw t, t <:+ text ∧ a.WrittenAs raw t) :
      Stage units b { attrs.foldl applyPageAttribute b with
        tree := (b.tree.append parent
          { kind := .pageDirective, mark, name, attributes := attrs }).2 }
  | other (b : Builder) (parent : NodeId) {data : UnitRoot} {text : List Char} (n : Node)
      (hunit : units data text) (hheld : b.Holds data parent) (hmark : n.mark.unit = data.unit)
      (hroot : n.kind.root? = none) (htext : n.kind.run? = none) (hpage : n.kind ≠ .pageDirective)
      (hinsert : ∀ data, n.kind ≠ .insert data) :
      Stage units b { b with tree := (b.tree.append parent n).2 }

-- One stage after the other.
abbrev Stages (units : Units) : Builder → Builder → Prop := Relation.ReflTransGen (Stage units)

variable {units : Units} {b b' : Builder}

theorem Quiet.stages (h : b.Quiet b') : Stages units b b' := .single (.quiet h)

theorem extends_appendAll (t : Tree) (parent : NodeId) (nodes : List Node) :
    t.Extends (appendAll t parent nodes) := by
  induction nodes generalizing t with
  | nil => exact .refl t
  | cons n nodes ih => exact (t.extends_append parent n).trans (ih _)

theorem Stage.extends (h : Stage units b b') : b.tree.Extends b'.tree := by
  cases h with
  | quiet h => exact h.alike.extends
  | enter => exact .refl _
  | root | verbatim | directive | other => exact Tree.extends_append ..
  | run => exact extends_appendAll ..

theorem Stages.extends (h : Stages units b b') : b.tree.Extends b'.tree := by
  induction h with
  | refl => exact .refl _
  | tail _ hs ih => exact ih.trans hs.extends

-- A property of nodes that does not depend on their bodies, nor on blanks at the ends of texts.
def Lasting (P : Node → Prop) : Prop := ∀ n m : Node, n.Alike m → P n → P m

-- What a stage makes has the property wherever it is put.
structure Founded (units : Units) (P : Node → Prop) : Prop where
  lasting : Lasting P
  root : ∀ {data : UnitRoot} {text : List Char} (parent : Option NodeId), units data text →
    P { kind := .root data, mark := .start data.unit, body := some [], parent }
  run : ∀ {data : UnitRoot} {text : List Char} {mark : Mark} {ls : Letters} {o : ScanOptions}
    {c : Composite} (parent : Option NodeId), units data text → RunIn data text mark ls →
    Composite.parse o ls.values = .ok c →
      ∀ n ∈ partNodes mark ls.values 0 c.parts, P { n with parent }
  verbatim : ∀ (mark : Mark) (s : List Char) (parent : Option NodeId),
    P { kind := .text (.ofChars s), mark, parent }
  directive : ∀ {data : UnitRoot} {text : List Char} (name : String) {attrs : List Attribute}
    {mark : Mark} (parent : Option NodeId), units data text → mark.unit = data.unit →
    (∀ a ∈ attrs, a.mark.unit = data.unit ∧ ∃ raw t, t <:+ text ∧ a.WrittenAs raw t) →
      P { kind := .pageDirective, mark, name, attributes := attrs, parent }
  other : ∀ {n : Node} (parent : Option NodeId), n.kind.root? = none → n.kind.run? = none →
    n.kind ≠ .pageDirective → (∀ data, n.kind ≠ .insert data) → P { n with parent }

variable {P : Node → Prop}

theorem Lasting.append (h : Lasting P) {t : Tree} {parent : NodeId} {n : Node}
    (ht : ∀ id < t.size, P (t.node id)) (hn : P { n with parent := some parent }) :
    ∀ id < (t.append parent n).2.size, P ((t.append parent n).2.node id) := by
  intro id hid
  rw [Tree.size_append] at hid
  rcases Nat.lt_succ_iff_lt_or_eq.mp hid with hlt | rfl
  · exact h _ _ ((t.extends_append parent n).node id hlt) (ht id hlt)
  · rw [Tree.node_append_last]
    exact hn

theorem Lasting.appendAll (h : Lasting P) {t : Tree} {parent : NodeId} {nodes : List Node}
    (ht : ∀ id < t.size, P (t.node id)) (hnodes : ∀ n ∈ nodes, P { n with parent := some parent }) :
    ∀ id < (appendAll t parent nodes).size, P ((appendAll t parent nodes).node id) := by
  induction nodes generalizing t with
  | nil => exact ht
  | cons n nodes ih =>
    obtain ⟨hn, hrest⟩ := List.forall_mem_cons.mp hnodes
    exact ih (h.append ht hn) hrest

theorem Founded.step (h : Founded units P) (hs : Stage units b b')
    (hb : ∀ id < b.tree.size, P (b.tree.node id)) : ∀ id < b'.tree.size, P (b'.tree.node id) := by
  cases hs with
  | quiet hq =>
    intro id hid
    rw [hq.alike.size_eq] at hid
    exact h.lasting _ _ (hq.alike.node id) (hb id hid)
  | enter => exact hb
  | root parent hunit hhost => exact h.lasting.append hb (h.root _ hunit)
  | run parent hunit hheld hrun hparse => exact h.lasting.appendAll hb (h.run _ hunit hrun hparse)
  | verbatim parent mark s => exact h.lasting.append hb (h.verbatim ..)
  | directive parent name hunit hheld hmark hattrs =>
    exact h.lasting.append hb (h.directive _ _ hunit hmark hattrs)
  | other parent n hunit hheld hmark hroot htext hpage hinsert =>
    exact h.lasting.append hb (h.other _ hroot htext hpage hinsert)

theorem Founded.stages (h : Founded units P) (hs : Stages units b b')
    (hb : ∀ id < b.tree.size, P (b.tree.node id)) : ∀ id < b'.tree.size, P (b'.tree.node id) := by
  induction hs with
  | refl => exact hb
  | tail _ hs ih => exact h.step hs ih

variable {data : UnitRoot} {text : List Char} {parent id : Nat} {mark : Mark}

theorem Holds.of_extends (h : b.Holds data id) (he : b.tree.Extends b'.tree) : b'.Holds data id :=
  fun hform => (h hform).of_extends he

theorem holds_of_strict (hform : data.form = .strict) : b.Holds data id := fun hrelaxed => by
  rw [hform] at hrelaxed
  cases hrelaxed

-- A node that has been put into the tree.
theorem hosts_append {n : Node} (h : append parent n b = .ok id b')
    (hpage : n.kind ≠ .pageDirective) :
    b'.tree.Hosts id := by
  obtain ⟨rfl, rfl⟩ := append_eq_ok h
  refine ⟨Nat.lt_of_lt_of_eq (Nat.lt_succ_self _) Tree.size_append.symm, ?_⟩
  rw [Tree.kind, Tree.node_append_last]
  exact hpage

-- Reading an included unit goes on stage by stage.
def IncludesStages (units : Units) (includeUnit : Includer) : Prop :=
  ∀ {parent : NodeId} {target : String} {mark : Mark} {b b' : Builder} {id : NodeId},
    includeUnit parent target .included mark b = .ok id b' → b.tree.Hosts parent → Stages units b b'

theorem addText_stages (hunit : units data text) (hheld : b.Holds data parent) {ls : Letters}
    (hrun : RunIn data text mark ls) {u : Unit} (h : addText parent ls.values mark b = .ok u b') :
    Stages units b b' := by
  rw [addText_eq] at h
  cases hparse : Composite.parse b.scan ls.values with
  | error e =>
    rw [hparse] at h
    exact absurd h fail_ne_ok
  | ok c =>
    rw [hparse] at h
    cases h
    exact .single (.run b parent hunit hheld hrun hparse)

theorem addVerbatim_stages (hunit : units data text) (hheld : b.Holds data parent)
    (hmark : mark.unit = data.unit) {s : List Char} {u : Unit}
    (h : addVerbatim parent s mark b = .ok u b')
    (hparent : data.form = .relaxed → bodyContent? b.tree parent = some .verbatim) :
    Stages units b b' := by
  unfold addVerbatim at h
  split at h
  · cases h
    exact .refl
  · obtain ⟨_, happend⟩ := BuildM.discard_eq_ok h
    obtain ⟨-, rfl⟩ := append_eq_ok happend
    exact .single (.verbatim b parent mark s hunit hheld hmark hparent)

theorem append_stages (hunit : units data text) (hheld : b.Holds data parent) {n : Node}
    (hmark : n.mark.unit = data.unit) (h : append parent n b = .ok id b')
    (hroot : n.kind.root? = none) (htext : n.kind.run? = none) (hpage : n.kind ≠ .pageDirective)
    (hinsert : ∀ data, n.kind ≠ .insert data) : Stages units b b' := by
  obtain ⟨-, rfl⟩ := append_eq_ok h
  exact .single (.other b parent n hunit hheld hmark hroot htext hpage hinsert)

theorem addComment_stages (hunit : units data text) (hheld : b.Holds data parent)
    (hmark : mark.unit = data.unit) {s : List Char} {u : Unit}
    (h : addComment parent s mark b = .ok u b') : Stages units b b' := by
  obtain ⟨_, happend⟩ := BuildM.discard_eq_ok h
  exact append_stages hunit hheld hmark happend rfl rfl (by simp) (by simp)

theorem addScript_stages (hunit : units data text) (hheld : b.Holds data parent)
    (hmark : mark.unit = data.unit) {kind : ScriptKind} {code : Script}
    (h : addScript parent kind code mark b = .ok id b') : Stages units b b' :=
  append_stages hunit hheld hmark h rfl rfl (by simp) (by simp)

-- The node of an action may get a body of its own.
theorem startAction_stages (hunit : units data text) (hheld : b.Holds data parent)
    (hmark : mark.unit = data.unit) {name : String} {attrs : List Attribute} {form : UnitForm}
    (h : startAction parent name attrs mark form b = .ok id b') :
    Stages units b b' ∧ b'.Holds data id := by
  obtain ⟨kind, b₁, hb₁, haction, -, happend⟩ := startAction_eq_ok h
  obtain ⟨hroot, htext, hpage, hinsert⟩ := haction.spec
  have hstages : Stages units b₁ b' := append_stages hunit (hheld.of_extends hb₁.alike.extends) hmark
    happend hroot htext hpage hinsert
  exact ⟨hb₁.stages.trans hstages, fun _ => hosts_append happend hpage⟩

theorem tree_applyPageAttributes (b : Builder) (attrs : List Attribute) :
    (attrs.foldl applyPageAttribute b).tree = b.tree := by
  induction attrs generalizing b with
  | nil => rfl
  | cons a attrs ih =>
    rw [List.foldl_cons, ih, applyPageAttribute]
    split <;> rfl

theorem addDirective_stages {includeUnit : Includer} (hi : IncludesStages units includeUnit)
    (hunit : units data text) (hheld : b.Holds data parent) (hmark : mark.unit = data.unit)
    {name : String} {attrs : List Attribute}
    (hattrs : ∀ a ∈ attrs, a.mark.unit = data.unit ∧ ∃ raw t, t <:+ text ∧ a.WrittenAs raw t)
    (h : addDirective includeUnit parent name attrs mark b = .ok id b') : Stages units b b' := by
  cases addDirective_eq_ok h with
  | page happend =>
    obtain ⟨-, rfl⟩ := append_eq_ok happend
    rw [tree_applyPageAttributes]
    exact .single (.directive b parent _ hunit hheld hmark hattrs)
  | taglib hb happend =>
    exact hb.stages.trans (append_stages hunit (hheld.of_extends hb.alike.extends) hmark happend
      rfl rfl (by simp) (by simp))
  | inclusion hb happend hinclude =>
    have hstages : Stages units _ _ := append_stages hunit (hheld.of_extends hb.alike.extends) hmark
      happend rfl rfl (by simp) (by simp)
    exact hb.stages.trans (hstages.trans (hi hinclude (hosts_append happend (by simp))))

end Builder

-- A cursor in the text of a unit.
def Cursor.In (c : Cursor) (unit : String) (text : List Char) : Prop :=
  ∃ front, text = front ++ c.rest ∧ c.mark = (Mark.start unit).advance front

namespace Cursor

variable {c c' : Cursor} {unit : String} {text : List Char}

theorem in_ofText (unit : String) (text : List Char) : (ofText unit text).In unit text :=
  ⟨[], rfl, rfl⟩

theorem In.leads (h : c.In unit text) (hc : c.Leads c') : c'.In unit text := by
  obtain ⟨front, rfl, hmark⟩ := h
  obtain ⟨passed, hpassed⟩ := hc.exists_passed
  refine ⟨front ++ passed, by rw [hpassed, List.append_assoc], ?_⟩
  rw [hc.mark_eq hpassed, hmark, Mark.advance_append]

theorem In.suffix (h : c.In unit text) : c.rest <:+ text := by
  obtain ⟨front, rfl, -⟩ := h
  exact List.suffix_append ..

theorem In.unit_eq (h : c.In unit text) : c.mark.unit = unit := by
  obtain ⟨front, -, hmark⟩ := h
  rw [hmark, Mark.advance_unit]
  rfl

-- Text from the cursor on is a run.
theorem In.runIn {data : UnitRoot} (hform : data.form = .relaxed) (h : c.In data.unit text)
    {ls : Letters} {rest : List Char} (hrest : c.rest = ls.source ++ rest)
    (hls : ∀ l ∈ ls, l.Literal ∨ l = .opening) (hstops : Relaxed.Halts rest) :
    RunIn data text c.mark ls where
  unit_eq := h.unit_eq
  roomy l hl := by
    rcases hls l hl with hliteral | rfl
    · exact .inl hliteral.2
    · exact Letter.roomy_opening
  relaxed _ := hls
  place := by
    obtain ⟨front, rfl, hmark⟩ := h
    refine ⟨[], front, rest, ⟨by rw [hrest]; simp, ?_⟩, .inl rfl, fun _ => hstops, ?_⟩
    · rw [Mark.ofOffset_append, hmark, Mark.advance_unit]
      rfl
    · rw [hform]
      exact nofun

end Cursor

namespace Relaxed

open Builder Cursor

theorem literal_of_mem_plain {l : Letter} {s : List Char} (h : l ∈ Letters.plain s) :
    l.Literal ∨ l = .opening := by
  obtain ⟨c, -, rfl⟩ := List.mem_map.mp h
  exact .inl (Letter.literal_plain c)

-- A piece of text is written as it is read unless it is an escaped opening.
theorem Piece.letters {o : ScanOptions} {s piece rest : List Char} {slice : Option Slice}
    (h : Piece o s piece slice rest) :
    ∃ ls : Letters, ls.values = piece ∧ s = ls.source ++ rest ∧
      ∀ l ∈ ls, l.Literal ∨ l = .opening := by
  cases h with
  | opening =>
    exact ⟨[.plain '<', .opening], rfl, rfl, List.forall_mem_cons.mpr
      ⟨.inl (Letter.literal_plain _), List.forall_mem_singleton.mpr (.inr rfl)⟩⟩
  | escape d =>
    exact ⟨.plain ['\\', d.sign, '{'], rfl, rfl, fun _ => literal_of_mem_plain⟩
  | @expression d rest body after hd hbody =>
    refine ⟨.plain (d.sign :: '{' :: (body ++ ['}'])), Letters.values_plain _, ?_,
      fun _ => literal_of_mem_plain⟩
    rw [Letters.source_plain, Composite.closeBrace_append hbody]
    simp
  | @plain c rest => exact ⟨.plain [c], rfl, rfl, fun _ => literal_of_mem_plain⟩

variable {s s' : State} {unit : String} {text : List Char}

-- The text gathered so far is a run that ends at the cursor.
structure State.Tracks (s : State) (unit : String) (text : List Char) (c : Cursor) (ls : Letters) :
    Prop where
  start : c.In unit text
  leads : c.Leads s.cursor
  mark_eq : s.textMark = c.mark
  rest_eq : c.rest = ls.source ++ s.cursor.rest
  values_eq : ls.values = s.text.reverse
  written : ∀ l ∈ ls, l.Literal ∨ l = .opening

theorem State.Tracks.cursor {c : Cursor} {ls : Letters} (h : s.Tracks unit text c ls) :
    s.cursor.In unit text :=
  h.start.leads h.leads

-- Where there is no text yet, it begins at the cursor.
theorem State.tracks_of_nil (hcursor : s.cursor.In unit text) (htext : s.text = [])
    (hmark : s.textMark = s.cursor.mark) : s.Tracks unit text s.cursor [] where
  start := hcursor
  leads := .refl _
  mark_eq := hmark
  rest_eq := rfl
  values_eq := by rw [htext]; rfl
  written := fun _ hl => nomatch hl

theorem State.Tracks.readText {c : Cursor} {ls : Letters} (h : s.Tracks unit text c ls)
    {b b' : Builder} (hrest : s.cursor.rest ≠ []) (hread : readText s b = .ok s' b') :
    ∃ c' ls', s'.Tracks unit text c' ls' := by
  obtain ⟨-, piece, width, hpiece, rfl⟩ := readText_eq_ok hread
  obtain ⟨ls', rfl, hsource, hls'⟩ := (piece_of_textPiece hrest hpiece).letters
  have hleads := leads_skip s.cursor width
  refine ⟨c, ls ++ ls', h.start, h.leads.trans hleads, ?_, ?_, ?_, ?_⟩
  · dsimp only
    split
    · rename_i hempty
      have hnil : s.text = [] := List.isEmpty_iff.mp hempty
      have hvalues := h.values_eq
      rw [hnil] at hvalues
      obtain rfl : ls = [] := List.map_eq_nil_iff.mp hvalues
      exact h.leads.mark_eq h.rest_eq
    · exact h.mark_eq
  · rw [h.rest_eq, hsource, Letters.source_append, List.append_assoc]
    rfl
  · dsimp only
    rw [Letters.values_append, h.values_eq, List.reverse_append, List.reverse_reverse]
  · intro l hl
    rcases List.mem_append.mp hl with hl | hl
    · exact h.written l hl
    · exact hls' l hl

variable {units : Units} {data : UnitRoot} {includeUnit : Includer} {root parent : Nat}
  {b b' : Builder}

-- The elements that are open, which may be given children.
structure State.Open (s : State) (data : UnitRoot) (root : NodeId) (b : Builder) : Prop where
  root : b.Holds data root
  frames : ∀ frame ∈ s.frames, b.Holds data frame.id

theorem State.Open.holds_parent (h : s.Open data root b) : b.Holds data (s.parent root) := by
  unfold State.parent
  cases hframes : s.frames with
  | nil => exact h.root
  | cons frame rest => exact h.frames frame (by rw [hframes]; exact List.mem_cons_self ..)

theorem State.Open.of_frames (h : s.Open data root b) (hs : s'.frames = s.frames) :
    s'.Open data root b := ⟨h.root, hs ▸ h.frames⟩

theorem State.Open.of_extends (h : s.Open data root b) (he : b.tree.Extends b'.tree) :
    s.Open data root b' :=
  ⟨h.root.of_extends he, fun frame hframe => (h.frames frame hframe).of_extends he⟩

theorem State.Tracks.flush {c : Cursor} {ls : Letters} (h : s.Tracks data.unit text c ls)
    (hform : data.form = .relaxed) (hunit : units data text) (hopen : s.Open data root b)
    (hstops : Halts s.cursor.rest) {u : Unit} (hflush : flush s root b = .ok u b') : Stages units b b' := by
  have hrun := h.start.runIn hform h.rest_eq h.written hstops
  rw [Relaxed.flush, ← h.values_eq, h.mark_eq] at hflush
  exact addText_stages hunit hopen.holds_parent hrun hflush

theorem Effect.stages (hi : IncludesStages units includeUnit) (hform : data.form = .relaxed)
    (hunit : units data text)
    {mark : Mark} {c : Cursor} {kind : Construct}
    (h : Effect includeUnit s (s.parent root) mark c b kind s' b') (hopen : s.Open data root b)
    (hc : c.In data.unit text) (hmark : mark.unit = data.unit) :
    Stages units b b' ∧ s'.Open data root b' := by
  have hheld := hopen.holds_parent
  -- Unless an element is opened, the open ones stay the same.
  have hsame : ∀ {b' : Builder} (c' : Cursor), Stages units b b' →
      Stages units b b' ∧ (s.resume c').Open data root b' := fun _ hstages =>
    ⟨hstages, (hopen.of_extends hstages.extends).of_frames rfl⟩
  cases h with
  | comment _ _ hadd => exact hsame _ (addComment_stages hunit hheld hmark hadd)
  | directive _ _ hattrs hadd =>
    refine hsame _ (addDirective_stages hi hunit hheld hmark (fun a ha => ?_) hadd)
    obtain ⟨c₁, raw, hc₁, hamark, hwritten⟩ := hattrs a ha
    have hin := hc.leads hc₁
    exact ⟨by rw [hamark, hin.unit_eq], raw, _, hin.suffix, hwritten⟩
  | script _ _ hadd | scriptElement _ _ hadd =>
    exact hsame _ (addScript_stages hunit hheld hmark hadd)
  | empty _ hstart hfinish =>
    exact hsame _ ((startAction_stages hunit hheld hmark hstart).1.trans
      (quietly_finishElement _ hfinish).stages)
  | @filled _ _ _ body c₁ c' id b₁ b₂ _ hc₁ _ htext hstart hfill hfinish =>
    obtain ⟨hstarted, hid⟩ := startAction_stages hunit hheld hmark hstart
    have hbody : Stages units b₁ { b₁ with tree := b₁.tree.openBody id } :=
      (quietly_openBody id rfl).stages
    have hid := hid.of_extends hbody.extends
    have hfilled : Stages units { b₁ with tree := b₁.tree.openBody id } b₂ := by
      rcases hfill with hfill | ⟨hcontent, hfill⟩
      · obtain ⟨tag, htag, hend⟩ := htext
        rw [← Letters.values_plain body] at hfill
        have hrest : c₁.rest = (Letters.plain body).source ++ (tag ++ c'.rest) := by
          rw [Letters.source_plain, htag, List.append_assoc]
        have hrun := (hc.leads hc₁).runIn hform hrest (fun _ => literal_of_mem_plain)
          (.inr (.inr ⟨_, Option.isSome_of_eq_some hend⟩))
        exact addText_stages hunit hid hrun hfill
      · exact addVerbatim_stages hunit hid (hc.leads hc₁).unit_eq hfill fun _ => hcontent
    exact hsame _ (hstarted.trans (hbody.trans
      (hfilled.trans (quietly_finishElement _ hfinish).stages)))
  | @opened _ name _ c' id b₁ scriptless _ hstart =>
    obtain ⟨hstarted, hid⟩ := startAction_stages hunit hheld hmark hstart
    have hbody : Stages units b₁ { b₁ with tree := b₁.tree.openBody id } :=
      (quietly_openBody id rfl).stages
    obtain ⟨hstages, hroot, hframes⟩ := hsame c' (hstarted.trans hbody)
    exact ⟨hstages, hroot, List.forall_mem_cons.mpr ⟨hid.of_extends hbody.extends, hframes⟩⟩

-- A step goes through stages, and tracks the text.
theorem Move.stages (hi : IncludesStages units includeUnit) (hform : data.form = .relaxed)
    (hunit : units data text)
    {next : Option State} (h : Move includeUnit root s b next b') {c : Cursor} {ls : Letters}
    (hs : s.Tracks data.unit text c ls) (hopen : s.Open data root b) :
    Stages units b b' ∧ ∀ s', next = some s' →
      s'.Open data root b' ∧ ∃ c' ls', s'.Tracks data.unit text c' ls' := by
  cases h with
  | close hclosing hflush hfinish =>
    obtain ⟨frame, -, hclosing⟩ := Option.bind_eq_some_iff.mp hclosing
    obtain ⟨behind, hbehind, heq⟩ := Option.bind_eq_some_iff.mp hclosing
    cases heq
    obtain ⟨rest, hend, -⟩ := Option.map_eq_some_iff.mp hbehind
    have hstops : Halts s.cursor.rest := .inr (.inr ⟨_, Option.isSome_of_eq_some hend⟩)
    have hstages : Stages units b b' := (hs.flush hform hunit hopen hstops hflush).trans
      (quietly_finishElement _ hfinish).stages
    refine ⟨hstages, ?_⟩
    rintro _ ⟨⟩
    obtain ⟨hroot, hframes⟩ := hopen.of_extends hstages.extends
    exact ⟨⟨hroot, fun frame hframe => hframes frame (List.mem_of_mem_tail hframe)⟩, _, _,
      State.tracks_of_nil (hs.cursor.leads (leads_endTag? hbehind).1) rfl rfl⟩
  | stop hclosing hend hflush hframes => exact ⟨hs.flush hform hunit hopen (.inl hend) hflush, by simp⟩
  | @construct kind behind b₁ _ s' hclosing hrest hkind hflush hread =>
    have hbehind := hs.cursor.leads (leads_moveTo s.cursor behind)
    have heffect := readConstruct_effect hread
    have hflushed := hs.flush hform hunit hopen
      (.inr (.inl ⟨_, Option.isSome_of_eq_some hkind⟩)) hflush
    obtain ⟨hstages, hopen'⟩ := heffect.stages hi hform hunit (hopen.of_extends hflushed.extends) hbehind
      hs.cursor.unit_eq
    refine ⟨hflushed.trans hstages, ?_⟩
    rintro _ ⟨⟩
    obtain ⟨hleads, htext, hmark⟩ := heffect.resumed
    exact ⟨hopen', _, _, State.tracks_of_nil (hbehind.leads hleads) htext hmark⟩
  | text hclosing hrest hkind hread =>
    obtain ⟨rfl, piece, width, -, rfl⟩ := readText_eq_ok hread
    refine ⟨.refl, ?_⟩
    rintro _ ⟨⟩
    exact ⟨hopen.of_frames rfl, hs.readText hrest hread⟩

theorem run_stages (hi : IncludesStages units includeUnit) (hform : data.form = .relaxed)
    (hunit : units data text) {fuel : Nat}
    {u : Unit} (h : run includeUnit root fuel s b = .ok u b') {c : Cursor} {ls : Letters}
    (hs : s.Tracks data.unit text c ls) (hopen : s.Open data root b) : Stages units b b' := by
  induction fuel generalizing s b c ls with
  | zero =>
    cases h
    exact .refl
  | succ fuel ih =>
    unfold run at h
    obtain ⟨next, b₁, hstep, h⟩ := BuildM.bind_eq_ok.mp h
    obtain ⟨hb₁, hnext⟩ := (step_move hstep).stages hi hform hunit hs hopen
    cases next with
    | none =>
      cases h
      exact hb₁
    | some s' =>
      obtain ⟨hopen', c', ls', hs'⟩ := hnext s' rfl
      exact hb₁.trans (ih h hs' hopen')

theorem read_stages (hi : IncludesStages units includeUnit) (hform : data.form = .relaxed)
    (hunit : units data text) (hroot : b.Holds data root) {u : Unit}
    (h : read includeUnit root data.unit text b = .ok u b') : Stages units b b' :=
  run_stages hi hform hunit h (State.tracks_of_nil (in_ofText data.unit text) rfl rfl)
    ⟨hroot, fun _ hframe => nomatch hframe⟩

end Relaxed
end PageCompiler
