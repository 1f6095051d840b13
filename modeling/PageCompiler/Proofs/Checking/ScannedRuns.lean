import PageCompiler.Proofs.Checking.ScanOptions
import PageCompiler.Proofs.Reading.PageStages

namespace PageCompiler

open Text
open Settings (isPageDirective)

theorem Composite.resolve_of_ignored {o : ScanOptions} (hignored : o.ignoreExpressions)
    (s : List Char) : resolve o s = s := by
  induction s with
  | nil => rfl
  | cons c s ih =>
    have hclosed : opens o s = false := by
      rw [Bool.eq_false_iff, ne_eq, opens_iff]
      rintro ⟨d, rest, -, hd⟩
      rw [ScanOptions.recognises, hignored] at hd
      cases hd
    rw [resolve_cons fun _ => hclosed, ih]

-- Where expressions are not looked for, a text is one part as it is.
theorem Composite.parts_of_ignored {o : ScanOptions} {value : List Char} {c : Composite}
    (hignored : o.ignoreExpressions) (hne : value ≠ []) (h : parse o value = .ok c) :
    c.parts = [.text (String.ofList value)] := by
  have htiles := parse_eq_ok_iff_tiles.mp h
  generalize c.parts = parts at htiles
  cases htiles with
  | gap => rw [gapPart, if_neg hne, resolve_of_ignored hignored]
  | expression _ _ hd =>
    rw [ScanOptions.recognises, hignored] at hd
    cases hd

-- Template text, or an expression in it.
def NodeKind.IsTemplate (k : NodeKind) : Prop :=
  (∃ run, k = .text run) ∨ ∃ data, k = .insert data

theorem NodeKind.Trims.isTemplate {k k' : NodeKind} (h : k.Trims k') (hk : k'.IsTemplate) :
    k.IsTemplate := by
  cases h with
  | same => exact hk
  | text => exact .inl ⟨_, rfl⟩

theorem NodeKind.Trims.trimsTo {r r' : TextRun} (h : Trims (.text r) (.text r')) :
    r.TrimsTo r' := by
  cases h with
  | same => exact ⟨[], [], rfl, rfl, by simp⟩
  | text h => exact h

theorem Builder.length_partNodes (mark : Mark) (text : List Char) (consumed : Nat)
    (parts : List Part) :
    (Builder.partNodes mark text consumed parts).length = parts.length := by
  fun_induction Builder.partNodes mark text consumed parts with
  | case1 => rfl
  | case2 _ _ _ ih | case3 _ _ _ _ _ _ ih => rw [List.length_cons, List.length_cons, ih]

namespace Tree

variable {t u : Tree} {id : Nat}

-- A text that is left as it is.
def Verbatim (t : Tree) (id : Nat) : Prop :=
  ∃ run p, t.kind id = .text run ∧ t.parent id = some p ∧ p < t.size ∧
    Builder.bodyContent? t p = some .verbatim

-- A node made from a run of text, which is scanned as a whole under the options where it stands.
def OfRun (t : Tree) (scan : Nat → ScanOptions) (data : UnitRoot) (text : List Char) (id : Nat) :
    Prop :=
  ∃ (first parent : Nat) (mark : Mark) (ls : Letters) (c : Composite),
    RunIn data text mark ls ∧ Composite.parse (scan first) ls.values = .ok c ∧ first ≤ id ∧
    id < first + c.parts.length ∧ first + c.parts.length ≤ t.size ∧
    ∀ k n, (Builder.partNodes mark ls.values 0 c.parts)[k]? = some n →
      ({ n with parent := some parent } : Node).Alike (t.node (first + k))

-- Where expressions are not looked for, a run is one text.
theorem OfRun.whole_of_ignored {scan : Nat → ScanOptions} {data : UnitRoot} {text : List Char}
    (h : t.OfRun scan data text id) (hignored : ∀ n, (scan n).ignoreExpressions) :
    ∃ ls : Letters, RunIn data text (t.mark id) ls ∧ ls.values ≠ [] ∧
      (NodeKind.text (.ofChars ls.values)).Trims (t.kind id) := by
  obtain ⟨first, parent, mark, ls, c, hrun, hparse, hle, hlt, -, hnodes⟩ := h
  have hne : ls.values ≠ [] := by
    intro hnil
    rw [hnil, Composite.parse, Composite.scan] at hparse
    cases hparse
    exact absurd hlt (Nat.not_lt.mpr hle)
  have hparts := Composite.parts_of_ignored (hignored first) hne hparse
  rw [hparts] at hnodes
  rw [hparts, List.length_singleton] at hlt
  obtain rfl : first = id := Nat.le_antisymm hle (Nat.le_of_lt_succ hlt)
  have halike := hnodes 0 _ rfl
  have hmark : t.mark first = mark.advance (takeBytes 0 ls.values) := halike.mark_eq
  have hnone : takeBytes 0 ls.values = [] := by cases ls.values <;> rfl
  rw [hnone] at hmark
  exact ⟨ls, by rw [hmark]; exact hrun, hne, halike.kind⟩

-- What is known of a node that has been read.
inductive Grounded (t : Tree) (o : Options) (units : Builder.Units) (id : Nat) : Prop
  | root (hroot : (t.kind id).isRoot) (hparent : ∀ p, t.parent id = some p → t.Hosts p)
  | taken {data : UnitRoot} {text : List Char} (hunit : units data text)
      (hmark : (t.mark id).unit = data.unit)
      (htemplate : data.form = .relaxed → (t.kind id).IsTemplate →
        t.Verbatim id ∨ t.OfRun (t.scanAt o) data text id)
      (hparent : data.form = .relaxed → ∀ p, t.parent id = some p → t.Hosts p)

theorem Extends.bodyContent?_eq (he : t.Extends u) {p : Nat} (hp : p < t.size) :
    Builder.bodyContent? u p = Builder.bodyContent? t p := by
  rw [Builder.bodyContent?, Tree.kind, (he.node p hp).kind.custom?_eq]
  rfl

theorem Verbatim.of_extends (h : t.Verbatim id) (hid : id < t.size) (he : t.Extends u) :
    u.Verbatim id := by
  obtain ⟨run, p, hkind, hparent, hp, hcontent⟩ := h
  have hnode := he.node id hid
  obtain ⟨run', hrun⟩ : ∃ run', u.kind id = .text run' := by
    have htrims := hnode.kind
    rw [show (t.node id).kind = .text run from hkind] at htrims
    generalize hk : (u.node id).kind = k at htrims
    cases htrims with
    | same => exact ⟨run, hk⟩
    | text => exact ⟨_, hk⟩
  refine ⟨run', p, hrun, hnode.parent_eq.trans hparent, hp.trans_le he.size_le, ?_⟩
  rw [he.bodyContent?_eq hp, hcontent]

theorem OfRun.of_extends {o : Options} {data : UnitRoot} {text : List Char}
    (h : t.OfRun (t.scanAt o) data text id) (he : t.Extends u) :
    u.OfRun (u.scanAt o) data text id := by
  obtain ⟨first, parent, mark, ls, c, hrun, hparse, hle, hlt, hsize, hnodes⟩ := h
  have hfirst : first ≤ t.size := (Nat.le_add_right ..).trans hsize
  refine ⟨first, parent, mark, ls, c, hrun, ?_, hle, hlt, hsize.trans he.size_le, fun k n hn => ?_⟩
  · rw [scanAt_eq_of_extends he o hfirst]
    exact hparse
  · have hk : k < c.parts.length := by
      rw [← Builder.length_partNodes mark ls.values 0 c.parts]
      exact (List.getElem?_eq_some_iff.mp hn).1
    exact (hnodes k n hn).trans (he.node _ ((Nat.add_lt_add_left hk first).trans_le hsize))

theorem Grounded.of_extends {o : Options} {units : Builder.Units} (h : t.Grounded o units id)
    (hid : id < t.size) (he : t.Extends u) : u.Grounded o units id := by
  have hnode := he.node id hid
  have hkept : ∀ p, u.parent id = some p → t.parent id = some p := fun p hp =>
    hnode.parent_eq.symm.trans hp
  cases h with
  | root hroot hparent =>
    exact .root (hnode.kind.isRoot_eq.trans hroot) fun p hp =>
      (hparent p (hkept p hp)).of_extends he
  | taken hunit hmark htemplate hparent =>
    refine .taken hunit ?_ (fun hform hk => ?_) fun hform p hp =>
      (hparent hform p (hkept p hp)).of_extends he
    · rw [Tree.mark, hnode.mark_eq]
      exact hmark
    · rcases htemplate hform (hnode.kind.isTemplate hk) with hverbatim | hrun
      · exact .inl (hverbatim.of_extends hid he)
      · exact .inr (hrun.of_extends he)

end Tree

namespace Builder

variable {o : Options} {units : Units} {b b' : Builder} {parent : Nat} {n : Node}

theorem size_appendAll (t : Tree) (parent : NodeId) (nodes : List Node) :
    (appendAll t parent nodes).size = t.size + nodes.length := by
  induction nodes generalizing t with
  | nil => rfl
  | cons n nodes ih =>
    have hsize : (t.append parent n).2.size = t.size + 1 := Tree.size_append
    rw [List.length_cons, Nat.add_comm nodes.length, ← Nat.add_assoc, ← hsize]
    exact ih _

theorem alike_appendAll (t : Tree) (parent : NodeId) {nodes : List Node} {k : Nat}
    (h : nodes[k]? = some n) : ({ n with parent := some parent } : Node).Alike
      ((appendAll t parent nodes).node (t.size + k)) := by
  induction nodes generalizing t k with
  | nil => cases h
  | cons m nodes ih =>
    have hsize : (t.append parent m).2.size = t.size + 1 := Tree.size_append
    cases k with
    | zero =>
      have hn : m = n := Option.some.inj h
      rw [← hn]
      have hnode := (extends_appendAll (t.append parent m).2 parent nodes).node t.size
        (Nat.lt_of_lt_of_eq (Nat.lt_succ_self _) hsize.symm)
      rw [Tree.node_append_last] at hnode
      exact hnode
    | succ k =>
      rw [Nat.add_comm k 1, ← Nat.add_assoc, ← hsize]
      exact ih (t.append parent m).2 (by simpa using h)

-- What is known of all nodes that have been read, and of the options for the text to come.
structure Traced (o : Options) (units : Units) (b : Builder) : Prop where
  scan_eq : b.scan = b.tree.scanAt o b.tree.size
  node : ∀ id < b.tree.size, b.tree.Grounded o units id

-- New nodes have to be seen to, the others stay as they are.
theorem Traced.of_extends (h : b.Traced o units) (he : b.tree.Extends b'.tree)
    (hscan : b'.scan = b'.tree.scanAt o b'.tree.size)
    (hnew : ∀ id, b.tree.size ≤ id → id < b'.tree.size → b'.tree.Grounded o units id) :
    b'.Traced o units where
  scan_eq := hscan
  node id hid := by
    rcases Nat.lt_or_ge id b.tree.size with hlt | hge
    · exact (h.node id hlt).of_extends hlt he
    · exact hnew id hge hid

theorem Traced.append (h : b.Traced o units) (htree : b'.tree = (b.tree.append parent n).2)
    (hscan : b'.scan =
      if isPageDirective n.kind then n.attributes.foldl ScanOptions.apply b.scan else b.scan)
    (hnew : b'.tree.Grounded o units b.tree.size) : b'.Traced o units := by
  have he : b.tree.Extends b'.tree := htree ▸ Tree.extends_append ..
  have hsize : b'.tree.size = b.tree.size + 1 := by rw [htree, Tree.size_append]
  have hnode : b'.tree.node b.tree.size = { n with parent := some parent } := by
    rw [htree, Tree.node_append_last]
  refine h.of_extends he ?_ fun id hle hlt => ?_
  · rw [hsize, Tree.scanAt_succ, Tree.scanAt_eq_of_extends he o (Nat.le_refl _), ← h.scan_eq,
      Tree.kind, hnode]
    exact hscan
  · obtain rfl : id = b.tree.size :=
      Nat.le_antisymm (Nat.le_of_lt_succ (Nat.lt_of_lt_of_eq hlt hsize)) hle
    exact hnew

theorem hosts_of_parent_append (hhost : b.tree.Hosts parent) {p : Nat}
    (hp : (b.tree.append parent n).2.parent b.tree.size = some p) :
    (b.tree.append parent n).2.Hosts p := by
  rw [Tree.parent, Tree.node_append_last] at hp
  cases hp
  exact hhost.of_extends (Tree.extends_append ..)

theorem grounded_root {data : UnitRoot} (hhost : b.tree.Hosts parent) (hn : n.kind = .root data) :
    (b.tree.append parent n).2.Grounded o units b.tree.size := by
  refine .root ?_ fun p hp => hosts_of_parent_append hhost hp
  rw [Tree.kind, Tree.node_append_last]
  dsimp only
  rw [hn]
  rfl

-- A node that is put somewhere is grounded when it is no template text, or is left as it is.
theorem grounded_append {data : UnitRoot} {text : List Char} (hunit : units data text)
    (hheld : b.Holds data parent) (hmark : n.mark.unit = data.unit)
    (htemplate : data.form = .relaxed → n.kind.IsTemplate →
      (b.tree.append parent n).2.Verbatim b.tree.size) :
    (b.tree.append parent n).2.Grounded o units b.tree.size := by
  refine .taken hunit ?_ (fun hform hk => ?_) fun hform p hp =>
    hosts_of_parent_append (hheld hform) hp
  · rw [Tree.mark, Tree.node_append_last]
    exact hmark
  · rw [Tree.kind, Tree.node_append_last] at hk
    exact .inl (htemplate hform hk)

theorem scan_applyPageAttribute (b : Builder) (a : Attribute) :
    (applyPageAttribute b a).scan = b.scan.apply a := by
  unfold applyPageAttribute
  split
  case h_4 hignored hdeferred _ =>
    unfold ScanOptions.apply
    split
    · exact absurd ‹_› hignored
    · exact absurd ‹_› hdeferred
    · rfl
  all_goals
    rename_i hname
    rw [ScanOptions.apply, hname]
    rfl

theorem scan_applyPageAttributes (b : Builder) (attrs : List Attribute) :
    (attrs.foldl applyPageAttribute b).scan = attrs.foldl ScanOptions.apply b.scan := by
  induction attrs generalizing b with
  | nil => rfl
  | cons a attrs ih => rw [List.foldl_cons, List.foldl_cons, ih, scan_applyPageAttribute]

-- The nodes of a run are grounded together.
theorem Traced.run (h : b.Traced o units) {data : UnitRoot} {text : List Char} {mark : Mark}
    {ls : Letters} {c : Composite} (hunit : units data text) (hheld : b.Holds data parent)
    (hrun : RunIn data text mark ls) (hparse : Composite.parse b.scan ls.values = .ok c) :
    Traced o units { b with
      tree := appendAll b.tree parent (partNodes mark ls.values 0 c.parts) } := by
  have he := extends_appendAll b.tree parent (partNodes mark ls.values 0 c.parts)
  have hsize := size_appendAll b.tree parent (partNodes mark ls.values 0 c.parts)
  rw [length_partNodes] at hsize
  have hnew : ∀ id, b.tree.size ≤ id → id < b.tree.size + c.parts.length →
      ∃ n ∈ partNodes mark ls.values 0 c.parts, ({ n with parent := some parent } : Node).Alike
        ((appendAll b.tree parent (partNodes mark ls.values 0 c.parts)).node id) := by
    intro id hle hlt
    obtain ⟨k, rfl⟩ := Nat.exists_eq_add_of_le hle
    have hk : k < (partNodes mark ls.values 0 c.parts).length := by
      rw [length_partNodes]
      exact Nat.lt_of_add_lt_add_left hlt
    exact ⟨_, List.getElem_mem hk, alike_appendAll b.tree parent (List.getElem?_eq_getElem hk)⟩
  have hscan : (appendAll b.tree parent (partNodes mark ls.values 0 c.parts)).scanAt o b.tree.size =
      b.scan := (Tree.scanAt_eq_of_extends he o (Nat.le_refl _)).trans h.scan_eq.symm
  refine h.of_extends he ?_ fun id hle hlt => ?_
  · dsimp only
    rw [hsize, Tree.scanAt_eq_of_ne o _ fun id hle hlt => ?_, hscan]
    obtain ⟨n, hn, halike⟩ := hnew id hle hlt
    rw [ne_eq, ← Settings.isPageDirective_iff, Tree.kind, halike.kind.isPageDirective_eq,
      Settings.isPageDirective_iff]
    exact fun hpage => Page.ne_pageDirective_of_mem_partNodes hn hpage
  · have hlt' : id < b.tree.size + c.parts.length := Nat.lt_of_lt_of_eq hlt hsize
    obtain ⟨n, hn, halike⟩ := hnew id hle hlt'
    refine .taken hunit ?_ (fun _ _ => .inr ⟨b.tree.size, parent, mark, ls, c, hrun, ?_, hle, hlt',
      hsize.ge, fun k n hn => alike_appendAll b.tree parent hn⟩) fun hform p hp => ?_
    · obtain ⟨-, -, -, -, hmark⟩ :=
        partNodes_spec mark ls.values 0 (Composite.legible_of_parse hparse) n hn
      rw [Tree.mark, halike.mark_eq]
      exact hmark.trans hrun.unit_eq
    · rw [hscan]
      exact hparse
    · rw [Tree.parent, halike.parent_eq] at hp
      cases hp
      exact (hheld hform).of_extends he

theorem Stage.traced (hs : Stage units b b') (h : b.Traced o units) : b'.Traced o units := by
  cases hs with
  | quiet hq =>
    refine h.of_extends hq.alike.extends ?_ fun id hle hlt => ?_
    · rw [hq.scan_eq, hq.alike.size_eq, Tree.scanAt_eq_of_extends hq.alike.extends o (Nat.le_refl _),
        h.scan_eq]
    · rw [hq.alike.size_eq] at hlt
      exact absurd hlt (Nat.not_lt.mpr hle)
  | enter => exact ⟨h.scan_eq, h.node⟩
  | root parent hunit hhost => exact h.append rfl rfl (grounded_root hhost rfl)
  | run parent hunit hheld hrun hparse => exact h.run hunit hheld hrun hparse
  | verbatim parent mark s hunit hheld hmark hparent =>
    refine h.append rfl rfl (grounded_append hunit hheld hmark fun hform _ => ?_)
    have he : b.tree.Extends
        (b.tree.append parent { kind := .text (.ofChars s), mark }).2 := Tree.extends_append ..
    have hlt := (hheld hform).1
    refine ⟨.ofChars s, parent, ?_, ?_, hlt.trans_le he.size_le, ?_⟩
    · rw [Tree.kind, Tree.node_append_last]
    · rw [Tree.parent, Tree.node_append_last]
    · rw [he.bodyContent?_eq hlt, hparent hform]
  | directive parent name hunit hheld hmark hattrs =>
    refine h.append rfl (scan_applyPageAttributes _ _)
      (grounded_append hunit hheld hmark fun _ hk => ?_)
    rcases hk with ⟨_, hk⟩ | ⟨_, hk⟩ <;> cases hk
  | other parent n hunit hheld hmark hroot htext hpage hinsert =>
    have hnot : isPageDirective n.kind = false := by
      rw [Bool.eq_false_iff, ne_eq, Settings.isPageDirective_iff]
      exact hpage
    refine h.append rfl (by rw [hnot]; rfl) (grounded_append hunit hheld hmark fun _ hk => ?_)
    rcases hk with ⟨run, hk⟩ | ⟨data, hk⟩
    · rw [hk] at htext
      cases htext
    · exact absurd hk (hinsert data)

theorem Stages.traced (hs : Stages units b b') (h : b.Traced o units) : b'.Traced o units := by
  induction hs with
  | refl => exact h
  | tail _ hs ih => exact hs.traced ih

end Builder

-- A run that is counted from the start of its unit stands there.
theorem RunIn.source_of_start {data : UnitRoot} {text : List Char} {mark : Mark} {ls : Letters}
    (h : RunIn data text mark ls) (hform : data.form = .relaxed) (hmark : mark.offset = 0) :
    ∃ rest, text = ls.source ++ rest := by
  obtain ⟨skipped, front, rest, ⟨htext, hfront⟩, hskipped, -, -⟩ := h.place
  obtain rfl : skipped = [] := hskipped.resolve_right fun h => by
    rw [hform] at h
    cases h.1
  obtain rfl : front = [] := by
    have hoffset := congrArg Mark.offset hfront
    rw [Mark.offset_ofOffset (by rw [htext]; simp only [byteSize_append]; omega), hmark] at hoffset
    exact Letter.byteSize_eq_zero hoffset.symm
  exact ⟨rest, htext⟩

theorem RunIn.congr {data data' : UnitRoot} {text : List Char} {mark : Mark} {ls : Letters}
    (h : RunIn data text mark ls) (hunit : data'.unit = data.unit) (hform : data'.form = data.form) :
    RunIn data' text mark ls :=
  ⟨h.unit_eq.trans hunit.symm, h.roomy, hform ▸ h.relaxed, hform ▸ h.place⟩

namespace Page

open Builder (ofOptions)

variable {o : Options} {loader : Loader} {resolver resolver' : Resolver} {name : String}
  {page : Page}

theorem grounded_read (h : read o loader resolver name = (.ok page, resolver')) :
    ∀ id < page.tree.size, page.tree.Grounded o (Loaded o loader) id := by
  obtain ⟨data, text, b, hloaded, hb, halike⟩ := stages_read h
  have hstart : (ofOptions o (.ofRoot data (String.ofList text)) resolver).Traced o
      (Loaded o loader) := by
    refine ⟨rfl, fun id hid => ?_⟩
    obtain rfl : id = 0 := Nat.lt_one_iff.mp hid
    exact .root rfl nofun
  intro id hid
  rw [halike.size_eq] at hid
  exact ((Builder.Stages.traced hb hstart).node id hid).of_extends hid halike.extends

theorem flat_read (h : read o loader resolver name = (.ok page, resolver'))
    (hrelaxed : ∀ id < page.tree.size, ∀ root, page.tree.kind id = .root root →
      root.form = .relaxed) : page.tree.Flat := by
  intro id hid p hp
  cases grounded_read h id hid with
  | root _ hparent => exact (hparent p hp).2
  | taken hunit hmark _ hparent =>
    obtain ⟨root, text, hroot, hrootUnit, hloaded⟩ := unitRoot_read h hid
    obtain ⟨-, -, hform⟩ := hloaded.unique hunit (hmark.symm.trans hrootUnit)
    have hlt := (page.tree.unitRoot_le id).trans_lt hid
    exact (hparent (hform.trans (hrelaxed _ hlt root hroot)) p hp).2

-- How the template text of a page that passes all checks has been split, when its units are no
-- documents. Every text and every expression is left of a run, which has been scanned as a whole
-- under the options where it stands, unless it is the body of an action that takes it as it is.
-- An option is what the settings of the page say where a page directive in front tells it, and
-- what has been configured elsewhere. Where everything has been told, it is the settings.
theorem runs_scanned {checked : CheckedPage}
    (h : read o loader resolver name = (.ok page, resolver')) (hcheck : page.check o = .ok checked)
    (hrelaxed : ∀ id < page.tree.size, ∀ root, page.tree.kind id = .root root →
      root.form = .relaxed) :
    (∀ id < page.tree.size, (page.tree.kind id).IsTemplate → page.tree.Verbatim id ∨
      ∃ root text, page.tree.kind (page.tree.unitRoot id) = .root root ∧
        Loaded o loader root text ∧
        page.tree.OfRun (page.tree.scanBehind o checked.settings) root text id) ∧
    ∀ n, (∀ name ∈ Tree.scanNames, page.tree.sets name page.tree.size → page.tree.sets name n) →
      page.tree.scanBehind o checked.settings n = checked.settings.scan := by
  have hwf := wellFormed_read h
  have hreconcile := check_settings hcheck
  obtain ⟨-, -, -, hblank, -⟩ := layout_read h
  have hreach : ∀ id < page.tree.size, page.tree.kind id = .pageDirective →
      page.tree.Reachable id := fun id hid hkind => by
    by_contra hout
    have hisblank := hblank id hid hout
    rw [hkind] at hisblank
    cases hisblank
  refine ⟨fun id hid htemplate => ?_, fun n hn =>
    Settings.scanBehind_eq_scan hwf hreconcile hn⟩
  obtain ⟨root, text, hroot, hrootUnit, hloaded⟩ := unitRoot_read h hid
  cases grounded_read h id hid with
  | root hisroot _ =>
    rcases htemplate with ⟨_, hk⟩ | ⟨_, hk⟩ <;> rw [hk] at hisroot <;> cases hisroot
  | taken hunit hmark hrun _ =>
    have hunits := hmark.symm.trans hrootUnit
    obtain ⟨rfl, -, hform⟩ := hloaded.unique hunit hunits
    have hlt := (page.tree.unitRoot_le id).trans_lt hid
    refine (hrun (hform.trans (hrelaxed _ hlt root hroot)) htemplate).imp_right ?_
    rintro ⟨first, parent, mark, ls, c, hrunIn, hparse, hle, hlt', hsize, hnodes⟩
    refine ⟨root, _, hroot, hloaded, first, parent, mark, ls, c,
      hrunIn.congr hunits.symm hform.symm, ?_, hle, hlt', hsize, hnodes⟩
    rw [← Settings.scanAt_eq_of_reconcile hwf (flat_read h hrelaxed) hreach hreconcile
      (hle.trans (Nat.le_of_lt hid))]
    exact hparse

-- A delimiter that is escaped, in front of the directive that turns expressions off.
def lateDirective : Loader :=
  .ofUnits [("/main.page", Utf8.ofString "\\$\x7bx\x7d<%@ page isELIgnored=\"true\" %>")]

theorem read_lateDirective :
    ∃ page resolver checked run, read {} lateDirective (.ofLibraries []) "/main.page" =
        (.ok page, resolver) ∧ page.check {} = .ok checked ∧ checked.settings.elIgnored ∧
      1 < page.tree.size ∧ page.tree.kind 1 = .text run ∧ run.text = "$\x7bx\x7d" ∧
      page.tree.mark 1 = Mark.start "/main.page" ∧ ¬page.tree.Verbatim 1 ∧
      ∀ id < page.tree.size, ∀ root, page.tree.kind id = .root root → root.form = .relaxed := by
  have hrun : passes {} lateDirective (.ofLibraries []) "/main.page" (fun page =>
      ((page.check {}).toOption.any fun checked => checked.settings.elIgnored) &&
        decide (1 < page.tree.size) &&
        ((List.range page.tree.size).all fun id =>
          (page.tree.kind id).root?.all fun root => root.form == .relaxed) &&
        ((page.tree.kind 1).run?.any fun run => run.text == "$\x7bx\x7d") &&
        page.tree.mark 1 == Mark.start "/main.page" &&
        (page.tree.parent 1).all fun p =>
          Builder.bodyContent? page.tree p != some .verbatim) := by
    rw [lateDirective, Utf8.ofString_ofList]
    decide +kernel
  obtain ⟨page, resolver, h, htest⟩ := of_passes hrun
  simp only [Bool.and_eq_true, decide_eq_true_eq, beq_iff_eq] at htest
  obtain ⟨⟨⟨⟨⟨hchecked, hlt⟩, hroots⟩, htext⟩, hmark⟩, hparent⟩ := htest
  cases hcheck : page.check {} with
  | error d =>
    rw [hcheck] at hchecked
    cases hchecked
  | ok checked =>
    rw [hcheck] at hchecked
    obtain ⟨run, hkind, htext⟩ := (Option.any_eq_true _ _).mp htext
    refine ⟨page, resolver, checked, run, h, hcheck, hchecked, hlt, NodeKind.run?_eq_some.mp hkind,
      beq_iff_eq.mp htext, hmark, ?_, fun id hid root hk => ?_⟩
    · rintro ⟨-, p, -, hp, -, hcontent⟩
      rw [hp] at hparent
      simp [hcontent] at hparent
    · have hroot := List.all_eq_true.mp hroots id (List.mem_range.mpr hid)
      rw [hk] at hroot
      simpa [NodeKind.root?] using hroot

theorem runs_scanned_sample :
    ∃ page resolver checked, read {} lateDirective (.ofLibraries []) "/main.page" =
        (.ok page, resolver) ∧ page.check {} = .ok checked ∧
      (∀ id < page.tree.size, ∀ root, page.tree.kind id = .root root → root.form = .relaxed) ∧
      ∃ root text, page.tree.kind (page.tree.unitRoot 1) = .root root ∧
        page.tree.OfRun (page.tree.scanBehind {} checked.settings) root text 1 := by
  obtain ⟨page, resolver, checked, run, h, hcheck, -, hlt, hkind, -, -, hverbatim, hrelaxed⟩ :=
    read_lateDirective
  obtain ⟨root, text, hroot, -, hrun⟩ :=
    ((runs_scanned h hcheck hrelaxed).1 1 hlt (.inl ⟨run, hkind⟩)).resolve_left hverbatim
  exact ⟨page, resolver, checked, h, hcheck, hrelaxed, root, text, hroot, hrun⟩

theorem text_lateDirective {root : UnitRoot} {text : List Char}
    (h : Loaded {} lateDirective root text) (hunit : root.unit = "/main.page") :
    ∃ rest, text = '\\' :: '$' :: rest := by
  have htest : (lateDirective.load "/main.page").toOption.any (fun bytes =>
      (Encoding.decode "/main.page" bytes none ({} : Options).defaultEncoding).toOption.any fun d =>
        d.text.take 2 == ['\\', '$']) := by
    rw [lateDirective, Utf8.ofString_ofList]
    decide +kernel
  obtain ⟨bytes, hload, hdecode⟩ := h.load
  rw [hunit] at hload hdecode
  rw [hload] at htest
  have hdecoded : Encoding.decode "/main.page" bytes none ({} : Options).defaultEncoding =
      .ok ⟨text, root.encoding⟩ := hdecode
  rw [Except.toOption, Option.any_some, hdecoded, Except.toOption, Option.any_some,
    beq_iff_eq] at htest
  exact ⟨text.drop 2, by rw [← List.take_append_drop 2 text, htest]; rfl⟩

-- The settings of the page do not tell how the text in front of the directive has been split. Under
-- them its backslash would be left, as it stands at the start of the unit.
theorem late_escape_dropped :
    ∃ page resolver checked, read {} lateDirective (.ofLibraries []) "/main.page" =
        (.ok page, resolver) ∧ page.check {} = .ok checked ∧
      ∃ id < page.tree.size, (page.tree.kind id).IsTemplate ∧ ¬page.tree.Verbatim id ∧
        ∀ root text, page.tree.kind (page.tree.unitRoot id) = .root root →
          Loaded {} lateDirective root text →
          ¬page.tree.OfRun (fun _ => checked.settings.scan) root text id := by
  obtain ⟨page, resolver, checked, run, h, hcheck, hignored, hlt, hkind, htext, hmark, hverbatim,
    hrelaxed⟩ := read_lateDirective
  refine ⟨page, resolver, checked, h, hcheck, 1, hlt, .inl ⟨run, hkind⟩, hverbatim,
    fun root text hroot hloaded => ?_⟩
  intro hofRun
  obtain ⟨ls, hrun, hne, htrims⟩ := hofRun.whole_of_ignored fun _ => hignored
  rw [hmark] at hrun
  -- The run begins with the unit, so its first letter is the backslash.
  have hform := hrelaxed _ ((page.tree.unitRoot_le 1).trans_lt hlt) root hroot
  obtain ⟨rest, htext'⟩ := text_lateDirective hloaded hrun.unit_eq.symm
  obtain ⟨behind, hplace⟩ := hrun.source_of_start hform rfl
  rw [hkind] at htrims
  obtain ⟨a, b, ha, -, hvalues⟩ := htrims.trimsTo
  cases ls with
  | nil => exact hne rfl
  | cons l ls =>
    -- No blank has been trimmed off in front of it, and it is not the sign.
    have hletter : l.value = '\\' := by
      rcases hrun.relaxed hform l (List.mem_cons_self ..) with hl | rfl
      · rw [htext', Letters.source, List.flatMap_cons, hl.source_eq] at hplace
        exact (List.cons.inj hplace).1.symm
      · rw [htext'] at hplace
        cases (List.cons.inj (List.cons.inj hplace).2).1
    rw [htext, TextRun.ofChars, TextRun.ofText, String.toList_ofList, Letters.values,
      List.map_cons, hletter] at hvalues
    cases a with
    | nil => cases (List.cons.inj hvalues).1
    | cons d a =>
      obtain rfl := (List.cons.inj hvalues).1
      cases ha

end Page

end PageCompiler
