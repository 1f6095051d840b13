import PageCompiler.Proofs.Reading.PageStages

namespace PageCompiler

open Text PageCompiler.Tree

-- Text, expressions, statements, comments, and page directives that leave blanks as they are.
def Node.isPlain (n : Node) : Bool :=
  match n.kind with
  | .text _ | .insert _ | .comment _ => true
  | .script kind _ => kind != .declaration
  | .pageDirective => n.attributes.all fun a => a.name != "trimDirectiveWhitespaces"
  | _ => false

namespace Tree

variable {t u : Tree} {id parent : Nat} {n : Node}

-- Only the root is anything else.
def OnlyPlain (t : Tree) : Prop := ∀ id, 0 < id → id < t.size → (t.node id).isPlain

theorem isPlain_modify {f : Node → Node} (hf : ∀ n : Node, (f n).isPlain = n.isPlain) (i : Nat) :
    ((t.modify id f).node i).isPlain = (t.node i).isPlain := by
  rw [node_modify]
  split
  · exact hf _
  · rfl

theorem Step.isPlain_eq (h : Step t u) (hid : id < t.size) :
    (u.node id).isPlain = (t.node id).isPlain := by
  cases h with
  | append parent n _ =>
    rw [node_append, if_neg hid.ne]
    split <;> rfl
  | openBody | removeBlank =>
    refine isPlain_modify (fun n => ?_) id
    rfl
  | modifyText i f _ =>
    refine isPlain_modify (fun n => ?_) id
    split
    · rename_i run hk
      simp [Node.isPlain, hk]
    · rfl
  | addSource => rfl

-- What a tree has grown from was plain before.
theorem OnlyPlain.of_grows (h : Grows t u) (hu : u.OnlyPlain) : t.OnlyPlain := by
  induction h with
  | refl => exact hu
  | tail hgrows hstep ih =>
    refine ih fun id hpos hid => ?_
    rw [← hstep.isPlain_eq hid]
    exact hu id hpos (hid.trans_le hstep.keeps.size_le)

theorem OnlyPlain.appended (h : (t.append parent n).2.OnlyPlain) (ht : 0 < t.size) :
    n.isPlain := by
  have hnode := h t.size ht (by rw [size_append]; omega)
  rwa [node_append, if_pos rfl] at hnode

end Tree

-- A page of one unit with constructs in its text, without actions, declarations and other units.
structure Tree.Plain (t : Tree) : Prop where
  relaxed : ∃ data, t.kind root = .root data ∧ data.form = .relaxed
  nodes : ∀ id ∈ t.preorder, id ≠ root → (t.node id).isPlain

theorem Tree.plain_iff {t : Tree} :
    t.Plain ↔ (match t.kind root with
      | .root data => data.form == .relaxed
      | _ => false) = true ∧ ∀ id ∈ t.preorder, id ≠ root → (t.node id).isPlain := by
  constructor
  · rintro ⟨⟨data, hroot, hform⟩, hnodes⟩
    rw [hroot]
    exact ⟨beq_iff_eq.mpr hform, hnodes⟩
  · rintro ⟨hroot, hnodes⟩
    refine ⟨?_, hnodes⟩
    split at hroot
    · exact ⟨_, ‹_›, beq_iff_eq.mp hroot⟩
    · cases hroot

instance (t : Tree) : Decidable t.Plain := decidable_of_iff' _ Tree.plain_iff

-- Nodes that cannot be reached are blank text.
theorem Tree.Plain.onlyPlain {t : Tree} (h : t.Plain) (ht : t.Arranged) : t.OnlyPlain := by
  intro id hpos hid
  rcases Page.reachable_or_blank ht hid with hreach | hblank
  · exact h.nodes id (ht.wellFormed.mem_preorder_of_reachable hreach) hpos.ne'
  · unfold Node.isPlain
    unfold Tree.kind at hblank
    cases hk : (t.node id).kind <;> rw [hk] at hblank <;> first | rfl | cases hblank

namespace Relaxed

open Composite Builder Cursor

-- Text as it is written, and the text that it stands for: some openings are escaped.
inductive Spelled : List Char → List Char → Prop
  | nil : Spelled [] []
  | plain {s t : List Char} (c : Char) (h : Spelled s t) : Spelled (c :: s) (c :: t)
  | opening {s t : List Char} (h : Spelled s t) :
      Spelled ('<' :: '\\' :: '%' :: s) ('<' :: '%' :: t)
  | escape {s t : List Char} (d : Dialect) (h : Spelled s t) :
      Spelled ('\\' :: d.sign :: '{' :: s) (d.sign :: '{' :: t)

namespace Spelled

variable {s t s' t' : List Char}

theorem append (h : Spelled s t) (h' : Spelled s' t') : Spelled (s ++ s') (t ++ t') := by
  induction h with
  | nil => exact h'
  | plain c _ ih => exact .plain c ih
  | opening _ ih => exact .opening ih
  | escape d _ ih => exact .escape d ih

-- Both have the same lines.
theorem countNewlines_eq (h : Spelled s t) : countNewlines s = countNewlines t := by
  induction h with
  | nil => rfl
  | plain c _ ih => simp [countNewlines, List.countP_cons] at ih ⊢; omega
  | opening _ ih => simpa [countNewlines] using ih
  | escape d _ ih => cases d <;> simpa [countNewlines, Dialect.sign] using ih

theorem getLast?_eq (h : Spelled s t) : s.getLast? = t.getLast? := by
  induction h with
  | nil => rfl
  | plain c _ ih => simp [List.getLast?_cons, ih]
  | opening _ ih => simp [List.getLast?_cons, ih]
  | escape d _ ih => simp [List.getLast?_cons, ih]

theorem eq_nil (h : Spelled s []) : s = [] := by
  cases h
  rfl

end Spelled

-- What stands behind the opening of a construct that is read as a node.
inductive Construct.Reads : Construct → NodeKind → List Char → Prop
  | comment (text : List Char) :
      Reads .comment (.comment (String.ofList text)) (text ++ "--%>".toList)
  | directive {kind : Construct} (hkind : kind = .directive ∨ kind = .directiveElement)
      (text : List Char) : Reads kind .pageDirective text
  | script (kind : ScriptKind) (code : List Char) :
      Reads (.script kind) (.script kind (.inline (String.ofList (unescapeCode code))))
        (code ++ "%>".toList)
  | scriptElement (kind : ScriptKind) (before code behind : List Char) :
      Reads (.scriptElement kind) (.script kind (.inline (String.ofList code)))
        (before ++ code ++ behind)

theorem Construct.Reads.ne_endTag {kind : Construct} {node : NodeKind} {text : List Char}
    (h : kind.Reads node text) : kind ≠ .endTag := by
  rintro rfl
  cases h with
  | directive hkind => rcases hkind with h | h <;> cases h

theorem Construct.Reads.ne_action {kind : Construct} {node : NodeKind} {text : List Char}
    (h : kind.Reads node text) (name : String) : kind ≠ .action name := by
  rintro rfl
  cases h with
  | directive hkind => rcases hkind with h | h <;> cases h

-- A node and the text that it is read from.
inductive Written : NodeKind → List Char → Prop
  | text {piece value : List Char} (h : Spelled piece value) (hne : value ≠ []) :
      Written (.text (.ofChars value)) piece
  | insert (data : Insert) : Written (.insert data) (data.dialect.enclose data.source).toList
  | construct {node : NodeKind} {opening : String} {kind : Construct} {text : List Char}
      (hopening : (opening, kind) ∈ openings) (h : kind.Reads node text) :
      Written node (opening.toList ++ text)

-- Nodes are read from consecutive pieces of a text that starts at a line.
def Laid (t : Tree) : Nat → List (NodeId × List Char) → Prop
  | _, [] => True
  | line, (id, piece) :: rest =>
    (t.mark id).line = line ∧ Written (t.kind id) piece ∧ Laid t (line + countNewlines piece) rest

section

variable {t u : Tree} {line : Nat} {pieces more : List (NodeId × List Char)}

theorem laid_append : Laid t line (pieces ++ more) ↔
    Laid t line pieces ∧ Laid t (line + countNewlines (pieces.flatMap Prod.snd)) more := by
  induction pieces generalizing line with
  | nil => simp [Laid, countNewlines]
  | cons piece pieces ih =>
    simp only [List.cons_append, Laid, ih, List.flatMap_cons, countNewlines_append, and_assoc,
      Nat.add_assoc]

theorem Laid.congr (h : Laid t line pieces)
    (hu : ∀ piece ∈ pieces, u.mark piece.1 = t.mark piece.1 ∧ u.kind piece.1 = t.kind piece.1) :
    Laid u line pieces := by
  induction pieces generalizing line with
  | nil => trivial
  | cons piece pieces ih =>
    obtain ⟨⟨hmark, hkind⟩, hrest⟩ := List.forall_mem_cons.mp hu
    obtain ⟨hline, hwritten, hlaid⟩ := h
    exact ⟨by rw [hmark, hline], by rwa [hkind], ih hlaid hrest⟩

end

-- The children of a node are read from a text.
def Spans (t : Tree) (id : NodeId) (text : List Char) : Prop :=
  ∃ pieces : List (NodeId × List Char), pieces.map Prod.fst = t.children id ∧
    pieces.flatMap Prod.snd = text ∧ (∀ piece ∈ pieces, piece.1 < t.size) ∧ Laid t 1 pieces

variable {t : Tree} {root : Nat} {done piece : List Char} {n : Node}

-- A node that is put behind the others extends the text.
theorem Spans.append (h : Spans t root done) (hroot : root < t.size)
    (hline : n.mark.line = 1 + countNewlines done) (hn : Written n.kind piece) :
    Spans (t.append root n).2 root (done ++ piece) := by
  obtain ⟨pieces, hids, rfl, hlt, hlaid⟩ := h
  refine ⟨pieces ++ [(t.size, piece)], ?_, by simp, ?_, ?_⟩
  · rw [children, node_append, if_neg hroot.ne, if_pos ⟨rfl, hroot⟩, ← hids]
    simp [Node.children]
  · simp only [List.forall_mem_append, List.forall_mem_singleton, size_append]
    exact ⟨fun piece hpiece => (hlt piece hpiece).trans (Nat.lt_succ_self _), Nat.lt_succ_self _⟩
  · refine laid_append.mpr ⟨hlaid.congr fun piece hpiece => ?_, ?_, ?_, trivial⟩
    · have hid := hlt piece hpiece
      refine ⟨keeps_append.mark_eq _ hid, ?_⟩
      rw [kind, node_append, if_neg hid.ne]
      split <;> rfl
    · rw [Tree.mark, node_append, if_pos rfl, hline]
    · rwa [kind_append]

section

variable {o : ScanOptions} {s text rest front pre written : List Char} {slices : List Slice}
  {mark : Mark} {offset : Nat} {parts : List Part}

-- Text that is put in front of other parts.
theorem Spans.textPart (h : Spans t root done) (hroot : root < t.size)
    (hspelled : Spelled written front.reverse)
    (hline : mark.line + countNewlines pre = 1 + countNewlines done) (behind : List Char) :
    ∃ u, Spans u root (done ++ written) ∧ root < u.size ∧ ∀ parts,
      appendAll t root (partNodes mark (pre ++ behind) (byteSize pre) (textPart front ++ parts)) =
        appendAll u root (partNodes mark (pre ++ behind) (byteSize pre) parts) := by
  cases front with
  | nil =>
    obtain rfl := hspelled.eq_nil
    exact ⟨t, by simpa using h, hroot, fun parts => rfl⟩
  | cons c front =>
    have hmark : (mark.advance (takeBytes (byteSize pre) (pre ++ behind))).line =
        1 + countNewlines done := by
      rw [takeBytes_append, Mark.advance_line, hline]
    refine ⟨_, h.append hroot hmark (.text hspelled (by simp)), ?_, fun parts => rfl⟩
    rw [size_append]
    omega

-- The same with an expression behind it: the text becomes a node, and then the expression itself.
theorem Spans.insertPart (h : Spans t root done) (hroot : root < t.size)
    (hspelled : Spelled written front.reverse) (hraw : countNewlines raw = countNewlines written)
    (hline : mark.line + countNewlines pre = 1 + countNewlines done) (d : Dialect)
    (body : List Char) (tree : Expr) (behind : List Char) :
    ∃ u, Spans u root (done ++ written ++ d.sign :: '{' :: (body ++ ['}'])) ∧ root < u.size ∧
      ∀ parts, appendAll t root (partNodes mark
          (pre ++ (raw ++ (d.sign :: '{' :: (body ++ ['}']) ++ behind))) (byteSize pre)
          (Composite.textPart front ++
            .expr d (String.ofList body) tree (byteSize (pre ++ raw)) :: parts)) =
        appendAll u root (partNodes mark
          (pre ++ (raw ++ (d.sign :: '{' :: (body ++ ['}']) ++ behind)))
          (byteSize (pre ++ raw) + 3 + byteSize body) parts) := by
  obtain ⟨u, hu, hlt, heq⟩ :=
    h.textPart hroot hspelled hline (raw ++ (d.sign :: '{' :: (body ++ ['}']) ++ behind))
  let place := mark.advance (takeBytes (byteSize (pre ++ raw))
    (pre ++ (raw ++ (d.sign :: '{' :: (body ++ ['}']) ++ behind))))
  have hmark : place.line = 1 + countNewlines (done ++ written) := by
    dsimp only [place]
    rw [← List.append_assoc pre, takeBytes_append, Mark.advance_line, countNewlines_append,
      countNewlines_append, hraw]
    omega
  have hinsert : Written (.insert ⟨d, String.ofList body, tree⟩)
      (d.sign :: '{' :: (body ++ ['}'])) := by
    simpa [Dialect.enclose] using Written.insert ⟨d, String.ofList body, tree⟩
  refine ⟨(u.append root { kind := .insert ⟨d, String.ofList body, tree⟩, mark := place }).2,
    hu.append hlt hmark hinsert, ?_, fun parts => ?_⟩
  · rw [size_append]
    omega
  · rw [heq, partNodes, utf8ByteSize_ofList, Nat.add_right_comm]
    rfl

-- By induction on the pieces of a run, of which some are gathered already. What has been gathered
-- is written in the unit in one way and stands in the run in another, with as many line feeds.
theorem Pieces.spans (raw written : List Char) (h : Pieces o s text slices rest)
    (hscan : Composite.scan o offset front text = .ok parts)
    (hoffset : offset = byteSize (pre ++ raw)) (hspelled : Spelled written front.reverse)
    (hraw : countNewlines raw = countNewlines written)
    (hline : mark.line + countNewlines pre = 1 + countNewlines done)
    (ht : Spans t root done) (hroot : root < t.size) :
    ∃ passed, s = passed ++ rest ∧
      Spans (appendAll t root (partNodes mark (pre ++ (raw ++ text)) (byteSize pre) parts)) root
        (done ++ written ++ passed) := by
  induction h generalizing raw written t offset front pre done parts with
  | done s =>
    rw [scan_nil] at hscan
    obtain ⟨u, hspans, -, heq⟩ := ht.textPart hroot hspelled hline (raw ++ [])
    cases hscan
    refine ⟨[], rfl, ?_⟩
    rw [← List.append_nil (Composite.textPart front), heq, List.append_nil]
    simpa [appendAll, partNodes] using hspans
  | @more s piece behind text rest slice slices hpiece h ih =>
    cases hpiece with
    | opening =>
      simp only [List.cons_append, List.nil_append] at hscan
      rw [scan_opening] at hscan
      obtain ⟨passed, rfl, hspans⟩ := ih (raw ++ ['<', '%']) (written ++ ['<', '\\', '%']) hscan
        (by simp [hoffset, byteSize_append]; rfl)
        (by simpa using hspelled.append (.opening .nil))
        (by simpa [countNewlines] using hraw) hline ht hroot
      exact ⟨'<' :: '\\' :: '%' :: passed, rfl, by simpa using hspans⟩
    | escape d =>
      simp only [List.cons_append, List.nil_append] at hscan
      rw [scan_escaped] at hscan
      have hwritten : Spelled (written ++ ['\\', d.sign, '{'])
          (if o.recognises d then '{' :: d.sign :: front
            else '{' :: d.sign :: '\\' :: front).reverse := by
        split
        · simpa using hspelled.append (.escape d .nil)
        · simpa using hspelled.append (.plain '\\' (.plain d.sign (.plain '{' .nil)))
      obtain ⟨passed, rfl, hspans⟩ := ih (raw ++ ['\\', d.sign, '{']) _ hscan
        (by cases d <;> simp [hoffset, byteSize_append] <;> rfl) hwritten
        (by simpa [countNewlines] using hraw) hline ht hroot
      exact ⟨'\\' :: d.sign :: '{' :: passed, rfl, by simpa using hspans⟩
    | @expression d tail body _ hd hbody =>
      simp only [List.cons_append, List.append_assoc, List.nil_append] at hscan
      rw [scan_delimiter hd (closeBrace_rest hbody text)] at hscan
      cases hparse : Expression.parse body with
      | error reason =>
        rw [hparse] at hscan
        cases hscan
      | ok tree =>
        cases hmore : Composite.scan o (offset + 3 + byteSize body) [] text with
        | error e =>
          rw [hparse, hmore] at hscan
          cases hscan
        | ok more =>
          rw [hparse, hmore] at hscan
          cases hscan
          obtain ⟨u, hu, hlt, heq⟩ := ht.insertPart hroot hspelled hraw hline d body tree text
          have hsize : offset + 3 + byteSize body =
              byteSize (pre ++ raw ++ d.sign :: '{' :: (body ++ ['}'])) := by
            have hsigns : byteSize (d.sign :: '{' :: (body ++ ['}'])) = byteSize body + 3 := by
              have henclosed := byteSize_enclosed d (String.ofList body)
              rwa [Enclosed, String.toList_ofList] at henclosed
            rw [byteSize_append, hsigns, hoffset]
            omega
          have hlines : mark.line + countNewlines (pre ++ raw ++ d.sign :: '{' :: (body ++ ['}'])) =
              1 + countNewlines (done ++ written ++ d.sign :: '{' :: (body ++ ['}'])) := by
            simp only [countNewlines_append, hraw]
            omega
          obtain ⟨passed, rfl, hspans⟩ :=
            ih [] [] hmore (by rw [hsize, List.append_nil]) .nil rfl hlines hu hlt
          refine ⟨d.sign :: '{' :: (body ++ ['}']) ++ passed, ?_, ?_⟩
          · rw [closeBrace_append hbody]
            simp
          · have hparts := heq more
            rw [← hoffset, hsize] at hparts
            simp only [List.cons_append, List.append_assoc, List.nil_append] at hparts hspans ⊢
            rw [hparts]
            exact hspans
    | @plain c _ he hd =>
      rw [List.cons_append, List.nil_append, h.scan_cons he hd] at hscan
      obtain ⟨passed, rfl, hspans⟩ := ih (raw ++ [c]) (written ++ [c]) hscan
        (by simp [hoffset, byteSize_append]; omega)
        (by simpa using hspelled.append (.plain c .nil))
        (by simp [hraw]) hline ht hroot
      exact ⟨c :: passed, rfl, by simpa using hspans⟩

end

end Relaxed

namespace Builder

-- No prefix is bound, and blanks are left as they are.
structure Bare (b : Builder) : Prop where
  spaces : b.bindings.spaces = []
  trimBlanks : b.trimBlanks = false

theorem Bare.applyPageAttributes {b : Builder} {attrs : List Attribute} (h : b.Bare)
    (hattrs : ∀ a ∈ attrs, a.name ≠ "trimDirectiveWhitespaces") :
    (attrs.foldl applyPageAttribute b).Bare := by
  induction attrs generalizing b with
  | nil => exact h
  | cons a attrs ih =>
    obtain ⟨ha, hrest⟩ := List.forall_mem_cons.mp hattrs
    refine ih ?_ hrest
    unfold applyPageAttribute
    split
    case h_3 hname => exact absurd hname ha
    all_goals exact ⟨h.spaces, h.trimBlanks⟩

theorem finish_eq_of_bare {b b' : Builder} {page : Page} (h : finish b = .ok page b')
    (hb : b.Bare) : page.tree = b.tree := by
  rw [tree_of_finish h, hb.trimBlanks]
  rfl

-- An action is not plain.
theorem not_onlyPlain_of_startAction {b b' : Builder} {parent id : NodeId} {name : String}
    {attrs : List Attribute} {mark : Mark} {form : UnitForm}
    (h : startAction parent name attrs mark form b = .ok id b') (hb : 0 < b.tree.size) :
    ¬b'.tree.OnlyPlain := by
  intro hplain
  obtain ⟨kind, b₁, hquiet, haction, -, happend⟩ := startAction_eq_ok h
  obtain ⟨-, rfl⟩ := append_eq_ok happend
  have hnode := hplain.appended (hb.trans_eq hquiet.alike.size_eq.symm)
  rcases haction with rfl | haction
  · cases hnode
  · cases kind <;> first | exact absurd hnode Bool.false_ne_true |
      exact absurd haction Bool.false_ne_true

end Builder

namespace Relaxed

open Composite Builder Cursor

variable {includeUnit : Includer} {root : Nat} {b b' : Builder} {s s' : State} {mark : Mark}
  {c : Cursor} {kind : Construct} {text done gathered : List Char}

-- A construct of a plain page becomes one node, which is read from all of it.
theorem Effect.reads (hi : Includes includeUnit)
    (h : Effect includeUnit s (s.parent root) mark c b kind s' b') (hs : s.Placed root b)
    (hmark : b.units.head? = some mark.unit) (hc : s.cursor.Leads c) (hplain : b'.tree.OnlyPlain)
    (hb : b.Bare) :
    ∃ (n : Node) (passed : List Char) (c' : Cursor), kind.Reads n.kind passed ∧ n.mark = mark ∧
      c.Leads c' ∧ c.rest = passed ++ c'.rest ∧ s' = s.resume c' ∧
        b'.tree = (b.tree.append (s.parent root) n).2 ∧ b'.Bare := by
  have hpos : 0 < b.tree.size := (Nat.zero_le _).trans_lt hs.root.lt_size
  cases h with
  | @comment text _ _ hleads hrest hadd =>
    obtain ⟨_, happend⟩ := BuildM.discard_eq_ok hadd
    obtain ⟨-, rfl⟩ := append_eq_ok happend
    exact ⟨_, _, _, .comment text, rfl, hleads, hrest, rfl, rfl, hb.spaces, hb.trimBlanks⟩
  | @directive _ _ attrs _ id _ hkind hleads _ hadd =>
    obtain ⟨passed, hpassed⟩ := hleads.exists_passed
    cases addDirective_eq_ok hadd with
    | page happend =>
      obtain ⟨-, rfl⟩ := append_eq_ok happend
      rw [tree_applyPageAttributes] at hplain ⊢
      have hnode := hplain.appended hpos
      have hattrs : ∀ a ∈ attrs, a.name ≠ "trimDirectiveWhitespaces" := by
        simpa [Node.isPlain] using hnode
      obtain ⟨hspaces, htrim⟩ := hb.applyPageAttributes hattrs
      exact ⟨_, passed, _, .directive hkind passed, rfl, hleads, hpassed, rfl, rfl, hspaces, htrim⟩
    | taglib hquiet happend =>
      obtain ⟨-, rfl⟩ := append_eq_ok happend
      cases hplain.appended (hpos.trans_eq hquiet.alike.size_eq.symm)
    | inclusion hquiet happend hinclude =>
      have hin := inside_append happend (hs.parent.advance hquiet.toAdvances) rfl rfl
      have hincluded := hplain.of_grows (hi hinclude hin).grows
      obtain ⟨-, rfl⟩ := append_eq_ok happend
      cases hincluded.appended (hpos.trans_eq hquiet.alike.size_eq.symm)
  | @script kind code _ _ _ hleads hrest hadd =>
    obtain ⟨-, rfl⟩ := append_eq_ok hadd
    exact ⟨_, _, _, .script kind code, rfl, hleads, hrest, rfl, rfl, hb.spaces, hb.trimBlanks⟩
  | @scriptElement kind before code behind _ _ _ hleads hrest hadd =>
    obtain ⟨-, rfl⟩ := append_eq_ok hadd
    exact ⟨_, _, _, .scriptElement kind before code behind, rfl, hleads, hrest, rfl, rfl,
      hb.spaces, hb.trimBlanks⟩
  | empty _ hstart hfinish =>
    have hstarted := hplain.of_grows (quietly_finishElement _ hfinish).grows
    exact absurd hstarted (not_onlyPlain_of_startAction hstart hpos)
  | filled hopened _ _ hstart hfill hfinish =>
    obtain ⟨hb₁, hid⟩ := startAction_advances hstart hs.parent hmark
    have hmark₁ := hs.cursor.trans (congrArg some (hc.trans hopened).unit_eq.symm)
    rw [← hb₁.units_eq] at hmark₁
    have hstarted := hplain.of_grows (fill_advances hid hmark₁ hfill hfinish).grows
    exact absurd hstarted (not_onlyPlain_of_startAction hstart hpos)
  | opened _ hstart =>
    have hstarted := hplain.of_grows (.single (.openBody _ _))
    exact absurd hstarted (not_onlyPlain_of_startAction hstart hpos)

-- What begins with an opening bracket has one of the fixed openings, or it is an element.
theorem construct?_eq_some {bindings : Bindings} {behind : List Char}
    (h : construct? bindings text = some (kind, behind)) :
    (∃ opening, (opening, kind) ∈ openings ∧ text = opening.toList ++ behind) ∨
      kind = .endTag ∨ ∃ name, kind = .action name := by
  unfold construct? at h
  split at h
  · split at h
    · rename_i found hfound
      cases h
      obtain ⟨⟨opening, k⟩, hmem, ho⟩ := List.exists_of_findSome?_eq_some hfound
      obtain ⟨after, hafter, heq⟩ := Option.map_eq_some_iff.mp ho
      cases heq
      exact .inl ⟨opening, hmem, eq_of_stripStart? hafter⟩
    · split at h
      · obtain ⟨k, htag, heq⟩ := Option.map_eq_some_iff.mp h
        cases heq
        unfold endTag? at htag
        obtain ⟨⟨space, _⟩, -, htag⟩ := Option.bind_eq_some_iff.mp htag
        obtain ⟨-, hk⟩ := Option.ite_none_right_eq_some.mp htag
        exact .inr (.inl (Option.some.inj hk).symm)
      · obtain ⟨k, haction, heq⟩ := Option.map_eq_some_iff.mp h
        cases heq
        unfold action? at haction
        obtain ⟨⟨space, inner⟩, -, haction⟩ := Option.bind_eq_some_iff.mp haction
        obtain ⟨-, hk⟩ := Option.ite_none_right_eq_some.mp haction
        exact .inr (.inr ⟨_, (Option.some.inj hk).symm⟩)
  · cases h

-- How far a plain page has been read: the nodes span the first part of its text, and what comes
-- behind it up to the cursor has been gathered.
structure Partway (root : NodeId) (text done gathered : List Char) (s : State) (b : Builder) :
    Prop where
  frames : s.frames = []
  bare : b.Bare
  text_eq : text = done ++ gathered ++ s.cursor.rest
  spans : Spans b.tree root done
  cursor : s.cursor.mark.line = 1 + countNewlines (done ++ gathered)
  textMark : s.textMark.line = 1 + countNewlines done
  pieces : ∃ slices, Pieces b.scan (gathered ++ s.cursor.rest) s.text.reverse slices s.cursor.rest

theorem Pieces.eq_of_nil {o : ScanOptions} {slices : List Slice} {rest : List Char}
    (h : Pieces o text [] slices rest) : text = rest := by
  generalize hnil : ([] : List Char) = run at h
  cases h with
  | done => rfl
  | more hpiece h => cases hpiece <;> cases hnil

theorem Partway.flush (h : Partway root text done gathered s b) (hs : s.Placed root b) {u : Unit}
    (hflush : flush s root b = .ok u b') :
    b'.Bare ∧ Spans b'.tree root (done ++ gathered) := by
  have hparent : s.parent root = root := by rw [State.parent, h.frames]; rfl
  rw [Relaxed.flush, hparent, addText_eq] at hflush
  obtain ⟨slices, hpieces⟩ := h.pieces
  unfold Composite.parse at hflush
  cases hscan : Composite.scan b.scan 0 [] s.text.reverse with
  | error e =>
    rw [hscan] at hflush
    exact absurd hflush fail_ne_ok
  | ok parts =>
    rw [hscan] at hflush
    cases hflush
    obtain ⟨passed, hpassed, hspans⟩ := hpieces.spans [] [] hscan
      (show 0 = byteSize ([] ++ []) from rfl) .nil rfl
      h.textMark h.spans hs.root.lt_size
    obtain rfl := List.append_cancel_right hpassed
    exact ⟨⟨h.bare.spaces, h.bare.trimBlanks⟩, by simpa using hspans⟩

theorem Partway.readText (h : Partway root text done gathered s b) (hrest : s.cursor.rest ≠ [])
    (hread : readText s b = .ok s' b') :
    ∃ gathered', Partway root text done gathered' s' b' := by
  obtain ⟨rfl, piece, width, hpiece, rfl⟩ := readText_eq_ok hread
  obtain ⟨slices, hpieces⟩ := h.pieces
  refine ⟨gathered ++ s.cursor.rest.take width, h.frames, h.bare, ?_, h.spans, ?_, ?_, ?_⟩
  · rw [h.text_eq]
    simp [Cursor.skip]
  · simp only [Cursor.skip, Mark.advance_line, h.cursor, countNewlines_append]
    omega
  · dsimp only
    split
    · rename_i hempty
      rw [List.isEmpty_iff.mp hempty, List.reverse_nil] at hpieces
      obtain rfl : gathered = [] := by simpa using hpieces.eq_of_nil
      rw [h.cursor, List.append_nil]
    · exact h.textMark
  · have hmore := hpieces.snoc (piece_of_textPiece hrest hpiece)
    simp only [List.reverse_append, List.reverse_reverse, Cursor.skip, List.append_assoc,
      List.take_append_drop]
    exact ⟨_, hmore⟩

theorem Partway.construct (hi : Includes includeUnit) {behind : List Char}
    (h : Partway root text done gathered s b) (hs : s.Placed root b) {b₁ : Builder}
    (hkind : construct? b.bindings s.cursor.rest = some (kind, behind))
    (hflush : Relaxed.flush s root b = .ok () b₁)
    (hread : readConstruct includeUnit s (s.parent root) kind s.cursor.mark
      (s.cursor.moveTo behind) b₁ = .ok s' b') (hplain : b'.tree.OnlyPlain) :
    ∃ done', Partway root text done' [] s' b' := by
  obtain ⟨hbare, hspans⟩ := h.flush hs hflush
  have hs₁ := hs.advance (flush_advances hflush hs)
  have hmove := leads_moveTo s.cursor behind
  obtain ⟨n, passed, c', hreads, hmark, hleads, hpassed, rfl, htree, hbare'⟩ :=
    (readConstruct_effect hread).reads hi hs₁ hs₁.cursor hmove hplain hbare
  have hopening : ∃ opening, (opening, kind) ∈ openings ∧
      s.cursor.rest = opening.toList ++ behind := by
    refine (construct?_eq_some hkind).resolve_right ?_
    rintro (rfl | ⟨name, rfl⟩)
    · exact hreads.ne_endTag rfl
    · exact hreads.ne_action name rfl
  obtain ⟨opening, hmem, hrest⟩ := hopening
  rw [rest_moveTo hrest] at hpassed
  have hall : s.cursor.rest = opening.toList ++ passed ++ c'.rest := by
    rw [hrest, hpassed, List.append_assoc]
  have hparent : s.parent root = root := by rw [State.parent, h.frames]; rfl
  rw [hparent] at htree
  have hline : c'.mark.line =
      1 + countNewlines (done ++ gathered ++ (opening.toList ++ passed)) := by
    rw [(hmove.trans hleads).mark_eq hall, Mark.advance_line, h.cursor, countNewlines_append _
      (opening.toList ++ passed), Nat.add_assoc]
  refine ⟨done ++ gathered ++ (opening.toList ++ passed), h.frames, hbare', ?_, ?_, ?_, hline,
    [], .done _⟩
  · rw [h.text_eq, hall]
    simp [State.resume]
  · rw [htree]
    exact hspans.append hs₁.root.lt_size (by rw [hmark, h.cursor]) (.construct hmem hreads)
  · rw [List.append_nil]
    exact hline

-- A step goes on with the text, and the last one has come to its end.
theorem Move.partway (hi : Includes includeUnit) {next : Option State}
    (h : Move includeUnit root s b next b') (hpart : Partway root text done gathered s b)
    (hs : s.Placed root b) (hplain : b'.tree.OnlyPlain) :
    (next = none → b'.Bare ∧ Spans b'.tree root text) ∧
      ∀ s', next = some s' → ∃ done' gathered', Partway root text done' gathered' s' b' := by
  cases h with
  | close hclosing _ _ =>
    rw [State.closing?, hpart.frames] at hclosing
    cases hclosing
  | stop _ hend hflush _ =>
    obtain ⟨hbare, hspans⟩ := hpart.flush hs hflush
    refine ⟨fun _ => ⟨hbare, ?_⟩, fun s' hnext => absurd hnext.symm (Option.some_ne_none s')⟩
    rwa [hpart.text_eq, hend, List.append_nil]
  | construct _ _ hkind hflush hread =>
    refine ⟨fun hnext => absurd hnext (Option.some_ne_none _), fun s' hnext => ?_⟩
    obtain rfl := Option.some.inj hnext
    obtain ⟨done', hdone⟩ := hpart.construct hi hs hkind hflush hread hplain
    exact ⟨done', [], hdone⟩
  | text _ hrest _ hread =>
    refine ⟨fun hnext => absurd hnext (Option.some_ne_none _), fun s' hnext => ?_⟩
    obtain rfl := Option.some.inj hnext
    exact ⟨done, hpart.readText hrest hread⟩

-- By induction on the steps that are left. Whatever a step makes is plain, as it stays in the tree.
theorem run_spans (hi : Includes includeUnit) {fuel : Nat} {u : Unit}
    (h : run includeUnit root fuel s b = .ok u b') (hpart : Partway root text done gathered s b)
    (hs : s.Placed root b) (hfuel : s.cursor.rest.length < fuel) (hplain : b'.tree.OnlyPlain) :
    b'.Bare ∧ Spans b'.tree root text := by
  induction fuel generalizing s b done gathered with
  | zero => exact absurd hfuel (Nat.not_lt_zero _)
  | succ fuel ih =>
    unfold run at h
    obtain ⟨next, b₁, hstep, h⟩ := BuildM.bind_eq_ok.mp h
    obtain ⟨-, hplaced⟩ := (step_move hstep).advances hi hs
    cases next with
    | none =>
      cases h
      exact ((step_move hstep).partway hi hpart hs hplain).1 rfl
    | some s' =>
      have hs' := hplaced s' rfl
      have hgrows := (run_advances hi h hs').grows
      obtain ⟨done', gathered', hpart'⟩ :=
        ((step_move hstep).partway hi hpart hs (hplain.of_grows hgrows)).2 s' rfl
      have hless := (leads_step hstep).2
      exact ih h hpart' hs' (by omega)

theorem read_spans (hi : Includes includeUnit) {unit : String} {u : Unit}
    (h : read includeUnit root unit text b = .ok u b') (hroot : Inside b root)
    (hunit : b.units.head? = some unit) (hbare : b.Bare) (hchildren : b.tree.children root = [])
    (hplain : b'.tree.OnlyPlain) : b'.Bare ∧ Spans b'.tree root text := by
  have hstart : Partway root text [] [] (.start (.ofText unit text)) b :=
    ⟨rfl, hbare, rfl, ⟨[], hchildren.symm, rfl, by simp, trivial⟩, rfl, rfl, [], .done _⟩
  exact run_spans hi h hstart (placed_start text hroot hunit) (Nat.lt_succ_self _) hplain

end Relaxed

namespace Page

open Builder

variable {o : Options} {loader : Loader} {b b' : Builder}

-- The root of another unit is not plain.
theorem not_onlyPlain_of_includeUnit {reader : UnitReader} (hr : Reads reader)
    {parent root : NodeId} {target : String} {origin : UnitOrigin} {mark : Mark}
    (h : includeUnit o loader reader parent target origin mark b = .ok root b')
    (hopen : Open b origin parent) : ¬b'.tree.OnlyPlain := by
  intro hplain
  unfold includeUnit at h
  obtain ⟨⟨root', unit, text, form⟩, b₂, henter, hrest⟩ := BuildM.bind_eq_ok.mp h
  obtain ⟨-, -, data, b₁, -, rfl, -, rfl, hquiet, happend⟩ := enterUnit_eq_ok henter
  obtain ⟨_, b₃, hread, hend⟩ := BuildM.bind_eq_ok.mp hrest
  cases hend
  have hopen₁ := hopen.advance hquiet.toAdvances
  have hentered := hplain.of_grows (hr hread (hopen₁.inside_root happend)).grows
  obtain ⟨-, rfl⟩ := append_eq_ok happend
  cases hentered.appended ((Nat.zero_le _).trans_lt hopen₁.lt_size)

-- Nothing is put in front of a plain page, or behind it.
theorem forIn_eq_of_plain {reader : UnitReader} (hr : Reads reader) {origin : UnitOrigin}
    {mark : Mark} {names : List String} {u : PUnit}
    (h : (forIn names PUnit.unit fun name _ => do
      discard (includeUnit o loader reader Tree.root name origin mark)
      pure (ForInStep.yield PUnit.unit) : BuildM PUnit) b = .ok u b')
    (hopen : Open b origin Tree.root) (hplain : b'.tree.OnlyPlain) : b' = b := by
  cases names with
  | nil =>
    cases h
    rfl
  | cons name names =>
    rw [List.forIn_cons] at h
    obtain ⟨_, b₁, hone, h⟩ := BuildM.bind_eq_ok.mp h
    obtain ⟨_, b₂, hinclude, hone⟩ := BuildM.bind_eq_ok.mp hone
    obtain ⟨root, hinclude⟩ := BuildM.discard_eq_ok hinclude
    cases hone
    have hb := includeUnit_advances hr hinclude hopen
    have hincluded := hplain.of_grows (forIn_advances hr h (hopen.advance hb)).grows
    exact absurd hincluded (not_onlyPlain_of_includeUnit hr hinclude hopen)

theorem readUnit_spans {depth : Nat} {unit : String} {text : List Char} {u : Unit}
    (h : readUnit o loader depth Tree.root unit text .relaxed b = .ok u b')
    (hin : Inside { b with units := unit :: b.units } Tree.root) (hbare : b.Bare)
    (hchildren : b.tree.children Tree.root = []) (hplain : b'.tree.OnlyPlain) :
    b'.Bare ∧ Relaxed.Spans b'.tree Tree.root text := by
  cases depth with
  | zero => exact absurd h fail_ne_ok
  | succ depth =>
    have hi : Includes (includeUnit o loader (readUnit o loader depth)) := fun hinclude hinside =>
      includeUnit_advances (reads_readUnit o loader depth) hinclude (.of_inside hinside)
    obtain ⟨_, _, hget, h⟩ := BuildM.bind_eq_ok.mp h
    cases hget
    obtain ⟨_, _, henter, h⟩ := BuildM.bind_eq_ok.mp h
    cases henter
    obtain ⟨_, b₁, hread, h⟩ := BuildM.bind_eq_ok.mp h
    cases h
    obtain ⟨hbare', hspans⟩ := Relaxed.read_spans hi hread hin rfl
      ⟨hbare.spaces, hbare.trimBlanks⟩ hchildren hplain
    exact ⟨⟨hbare'.spaces, hbare'.trimBlanks⟩, hspans⟩

theorem readUnits_spans {depth : Nat} {unit : String} {text : List Char} {u : Unit}
    (h : readUnits o loader (readUnit o loader depth) unit text .relaxed b = .ok u b')
    (hin : Inside { b with units := unit :: b.units } Tree.root) (hunits : b.units = [])
    (hbare : b.Bare) (hchildren : b.tree.children Tree.root = []) (hplain : b'.tree.OnlyPlain) :
    b'.Bare ∧ Relaxed.Spans b'.tree Tree.root text := by
  have hr : Reads (readUnit o loader depth) := reads_readUnit o loader depth
  obtain ⟨_, b₁, _, b₂, _, hprelude, hread, hcoda⟩ := readUnits_eq_ok h
  have hb₁ := forIn_advances hr hprelude (.of_page hin hunits (by decide))
  have hb₂ := hb₁.trans (hr hread (inside_advance hin hb₁))
  have hopen₂ : Open b₂ .coda Tree.root :=
    (Open.of_page hin hunits (by decide)).advance hb₂
  obtain rfl := forIn_eq_of_plain hr hcoda hopen₂ hplain
  have hplain₁ := hplain.of_grows (hr hread (inside_advance hin hb₁)).grows
  obtain rfl := forIn_eq_of_plain hr hprelude (.of_page hin hunits (by decide)) hplain₁
  exact readUnit_spans hread hin hbare hchildren hplain

-- The nodes of a plain page span the text of its unit.
theorem spans_read {resolver resolver' : Resolver} {name : String} {page : Page}
    (h : read o loader resolver name = (.ok page, resolver'))
    (htrim : o.trimDirectiveWhitespaces = false) (hplain : page.tree.Plain) :
    ∃ data text, page.tree.kind Tree.root = .root data ∧ Loaded o loader data text ∧
      Relaxed.Spans page.tree Tree.root text := by
  have honly := hplain.onlyPlain (arranged_read h)
  obtain ⟨b, b', ⟨data, text, hloaded, -, horigin, -, hunits⟩, hfinish⟩ := readTo_of_read h
  obtain ⟨hgrows, halike⟩ := finish_eq_ok hfinish
  have hstages := readUnits_stages (readUnit_stages o loader _) hloaded
    (hosts_ofRoot o data _ resolver) hunits
  obtain ⟨root, hroot, hrelaxed⟩ := hplain.relaxed
  have hkind := (hstages.extends.trans halike.extends).node Tree.root Nat.zero_lt_one
  have heq : NodeKind.root data = .root root :=
    hroot ▸ hkind.kind.eq (congrArg NodeKind.run? hroot)
  obtain rfl : data = root := by injection heq
  rw [hrelaxed] at hunits
  obtain ⟨hbare, hspans⟩ := readUnits_spans hunits (inside_ofRoot o resolver horigin _) rfl
    ⟨List.mergeSort_nil, htrim⟩ rfl (honly.of_grows hgrows)
  refine ⟨data, text, hroot, hloaded, ?_⟩
  rwa [finish_eq_of_bare hfinish hbare]

end Page

end PageCompiler
