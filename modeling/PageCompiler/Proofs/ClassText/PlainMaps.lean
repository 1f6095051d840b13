import PageCompiler.Proofs.Checking.Reconciling
import PageCompiler.Proofs.ClassText.LineMaps
import PageCompiler.Proofs.ClassText.TextLines
import PageCompiler.Proofs.Reading.PlainPages

namespace PageCompiler

open Text

namespace Text

theorem length_linesOf_le (t : String) : (linesOf t).length ≤ countNewlines t.toList + 1 := by
  have hfrom : ∀ cs line : List Char, (linesFrom cs line).length ≤ countNewlines cs + 1 := by
    intro cs line
    fun_induction linesFrom cs line with
    | case1 => simp
    | case2 => simp
    | case3 cs kept ih => simpa [countNewlines] using ih
    | case4 cs line _ ih => simpa [countNewlines] using ih
    | case5 c cs line hc ih => simpa [countNewlines, hc] using ih
  rw [linesOf, List.length_map]
  exact hfrom _ []

-- By induction on the text: whatever is passed over belongs to the piece last replaced.
theorem countNewlines_replaceFrom {piece put : List Char} (hpiece : piece ≠ [])
    (hput : countNewlines put = countNewlines piece) (skip : Nat) (s : List Char) :
    countNewlines (replaceFrom piece put skip s) + countNewlines (s.take skip) =
      countNewlines s := by
  fun_induction replaceFrom piece put skip s with
  | case1 => simp [countNewlines]
  | case2 skip c s ih =>
    simp only [countNewlines, List.take_succ_cons, List.countP_cons] at ih ⊢
    omega
  | case3 c s hstart ih =>
    obtain ⟨rest, hrest⟩ := Option.isSome_iff_exists.mp hstart
    have hpassed : c :: s.take (piece.length - 1) = piece := by
      have hpos := List.length_pos_iff.mpr hpiece
      have htake := congrArg (List.take piece.length) (eq_of_stripStart? hrest)
      rw [List.take_left, ← Nat.sub_add_cancel hpos, List.take_succ_cons] at htake
      exact htake
    rw [← hpassed] at hput
    simp only [countNewlines_append, List.take_zero]
    simp only [countNewlines, List.countP_cons, List.countP_nil] at ih hput ⊢
    omega
  | case4 c s _ ih =>
    simp only [countNewlines, List.take_zero, List.countP_cons, List.countP_nil] at ih ⊢
    omega

-- An escaped end has as many lines as the end that it stands for.
theorem countNewlines_unescapeCode (s : List Char) :
    countNewlines (Relaxed.unescapeCode s) = countNewlines s :=
  countNewlines_replaceFrom (show "%\\>".toList ≠ [] by decide)
    (show countNewlines "%>".toList = countNewlines "%\\>".toList by decide) 0 s

end Text

namespace ClassText

variable {x : Context} {id : NodeId}

-- What the generator makes of a node of a plain page.
inductive Says (x : Context) (id : NodeId) : Code → Prop
  | text {run : TextRun} {lines : List Line} (hk : x.tree.kind id = .text run) (hne : lines ≠ []) :
      Says x id [⟨lines, (x.tree.mark id).unit, coveredLines (x.tree.mark id) run⟩]
  | insert {data : Insert} {lines : List Line} (hk : x.tree.kind id = .insert data)
      (hne : lines ≠ []) : Says x id [.forMark (x.tree.mark id) lines]
  | script {kind : ScriptKind} {script : Script} (hk : x.tree.kind id = .script kind script) :
      Says x id (scriptStretches kind (x.tree.mark id) (x.tree.scriptText id))
  | silent (hrun : ∀ run, x.tree.kind id = .text run → run.text = "")
      (hinsert : ∀ data, x.tree.kind id ≠ .insert data)
      (hscript : ∀ kind script, x.tree.kind id ≠ .script kind script) : Says x id []

theorem scriptCode_run_eq_ok {kind : ScriptKind} {s s' : State} {code : Code}
    (hkind : kind ≠ .declaration) (h : scriptCode x kind id s = .ok (code, s')) :
    code = scriptStretches kind (x.tree.mark id) (x.tree.scriptText id) ∧ s' = s := by
  unfold scriptCode at h
  cases kind with
  | declaration => exact absurd rfl hkind
  | expression | scriptlet =>
    dsimp only at h
    have heq := pure_run_eq_ok.mp h
    exact Prod.mk.inj heq

theorem says_of_nodeCode {body : BodyGen} {scope : Scope} {s s' : State} {code : Code}
    (hplain : (x.tree.node id).isPlain) (htrim : x.settings.trimDirectiveWhitespaces = false)
    (hs : s.Regular) (h : nodeCode x body scope id s = .ok (code, s')) :
    s.Quiet s' ∧ Says x id code := by
  have hkept := State.Quiet.refl s
  unfold nodeCode at h
  unfold Node.isPlain at hplain
  cases hk : x.tree.kind id with
  | text run =>
    rw [hk] at h
    have hblank : isDirectiveBlank x id = false := by
      unfold isDirectiveBlank
      rw [htrim]
      rfl
    simp only [hblank, Bool.false_eq_true, if_false, textCode] at h
    split at h
    · rename_i hempty
      cases pure_run_eq_ok.mp h
      refine ⟨hkept, .silent (fun run' hrun => ?_) (by simp [hk]) (by simp [hk])⟩
      rw [hk] at hrun
      cases hrun
      exact String.isEmpty_iff.mp hempty
    · rename_i hempty
      obtain ⟨lines, s₁, hlines, h⟩ := bind_run_eq_ok.mp h
      cases pure_run_eq_ok.mp h
      refine ⟨(gives_writeLiteral run.text s s' lines hs hlines).1, .text hk ?_⟩
      exact writeLiteral_ne_nil hlines fun htext => hempty (String.isEmpty_iff.mpr htext)
  | insert data =>
    rw [hk] at h
    obtain ⟨lines, rfl, hne, hquiet, -⟩ := insertCode_run_eq_ok hs h
    exact ⟨hquiet, .insert hk hne⟩
  | script kind script =>
    rw [show (x.tree.node id).kind = _ from hk] at hplain
    rw [hk] at h
    obtain ⟨rfl, rfl⟩ := scriptCode_run_eq_ok (by simpa using hplain) h
    exact ⟨hkept, .script hk⟩
  | comment | pageDirective =>
    rw [hk] at h
    cases pure_run_eq_ok.mp h
    exact ⟨hkept, .silent (by simp [hk]) (by simp [hk]) (by simp [hk])⟩
  | _ =>
    rw [show (x.tree.node id).kind = _ from hk] at hplain
    cases hplain

-- One node after the other.
theorem says_of_mapM {scope : Scope} {ids : List NodeId} {s s' : State}
    {codes : List Code} (hplain : ∀ id ∈ ids, (x.tree.node id).isPlain)
    (htrim : x.settings.trimDirectiveWhitespaces = false) (hs : s.Regular) {fuel : Nat}
    (h : ids.mapM (subtreeCode x (fuel + 1) scope) s = .ok (codes, s')) :
    s.Quiet s' ∧ List.Forall₂ (Says x) ids codes := by
  induction ids generalizing s codes with
  | nil =>
    cases pure_run_eq_ok.mp h
    exact ⟨.refl _, .nil⟩
  | cons id ids ih =>
    obtain ⟨hid, hids⟩ := List.forall_mem_cons.mp hplain
    rw [List.mapM_cons] at h
    obtain ⟨code, s₁, hcode, h⟩ := bind_run_eq_ok.mp h
    obtain ⟨more, s₂, hmore, h⟩ := bind_run_eq_ok.mp h
    cases pure_run_eq_ok.mp h
    obtain ⟨hquiet, hsays⟩ := says_of_nodeCode hid htrim hs hcode
    obtain ⟨hquiet', hrest⟩ := ih hids (hquiet.regular hs) hmore
    exact ⟨hquiet.trans hquiet', .cons hsays hrest⟩

-- The class of a plain page consists of what its nodes say.
theorem says_of_pageCode {data : UnitRoot} {s : State} {body : Code} (hpos : 0 < x.tree.size)
    (hroot : x.tree.kind Tree.root = .root data)
    (hplain : ∀ id ∈ x.tree.children Tree.root, (x.tree.node id).isPlain)
    (htrim : x.settings.trimDirectiveWhitespaces = false) (h : pageCode x {} = .ok (body, s)) :
    ∃ codes, body = codes.flatten ∧ List.Forall₂ (Says x) (x.tree.children Tree.root) codes ∧
      State.Quiet {} s := by
  unfold pageCode subtreeCode nodeCode at h
  rw [hroot] at h
  dsimp only at h
  obtain ⟨codes, s₁, hcodes, h⟩ := bind_run_eq_ok.mp h
  cases pure_run_eq_ok.mp h
  obtain ⟨fuel, hfuel⟩ := Nat.exists_eq_succ_of_ne_zero hpos.ne'
  rw [hfuel] at hcodes
  obtain ⟨hquiet, hsays⟩ := says_of_mapM hplain htrim ⟨by simp, by simp⟩ hcodes
  exact ⟨codes, rfl, hsays, hquiet⟩

theorem exists_saying {ids : List NodeId} {codes : List Code} (h : List.Forall₂ (Says x) ids codes)
    (hid : id ∈ ids) : ∃ code ∈ codes, Says x id code := by
  induction h with
  | nil => cases hid
  | @cons first code ids codes hsays _ ih =>
    rcases List.mem_cons.mp hid with rfl | hid
    · exact ⟨code, List.mem_cons_self .., hsays⟩
    · obtain ⟨code', hcode, hsays'⟩ := ih hid
      exact ⟨code', List.mem_cons_of_mem _ hcode, hsays'⟩

-- Lines in their order, from a first one to a last one.
def Between (first last : Nat) (sources : List Nat) : Prop :=
  sources.Pairwise (· ≤ ·) ∧ ∀ n ∈ sources, first ≤ n ∧ n ≤ last

theorem Between.append {first middle last : Nat} {l l' : List Nat} (h : Between first middle l)
    (h' : Between middle last l') (hle : first ≤ middle) (hle' : middle ≤ last) :
    Between first last (l ++ l') := by
  refine ⟨List.pairwise_append.mpr ⟨h.1, h'.1, fun a ha b hb => ?_⟩, fun n hn => ?_⟩
  · exact (h.2 a ha).2.trans (h'.2 b hb).1
  · rcases List.mem_append.mp hn with hn | hn
    · exact ⟨(h.2 n hn).1, (h.2 n hn).2.trans hle'⟩
    · exact ⟨hle.trans (h'.2 n hn).1, (h'.2 n hn).2⟩

theorem between_singleton {first last : Nat} (h : first ≤ last) : Between first last [first] :=
  ⟨List.pairwise_singleton _ _, List.forall_mem_singleton.mpr ⟨Nat.le_refl _, h⟩⟩

-- Consecutive lines.
theorem between_range {first last count : Nat} (h : ∀ i < count, first + i ≤ last) :
    Between first last ((List.range count).map (first + ·)) := by
  refine ⟨List.pairwise_map.mpr (List.pairwise_lt_range.imp fun hlt => by omega), ?_⟩
  rw [List.forall_mem_map]
  exact fun i hi => ⟨Nat.le_add_right _ _, h i (List.mem_range.mp hi)⟩

theorem sources_codeLines (mark : Mark) (code : String) :
    (codeLines mark code).flatMap Stretch.sources =
      (List.range (linesOf code).length).map (mark.line + ·) := by
  unfold codeLines
  dsimp only
  generalize linesOf code = lines
  have hzip : List.range lines.length = ((List.range lines.length).zip lines).map Prod.fst :=
    (List.map_fst_zip (by simp)).symm
  conv => rhs; rw [hzip, List.map_map]
  rw [List.flatMap_map]
  exact List.map_eq_flatMap.symm

theorem between_scriptStretches {kind : ScriptKind} {mark : Mark} {code : String} {last : Nat}
    (h : mark.line + countNewlines code.toList ≤ last) :
    Between mark.line last ((scriptStretches kind mark code).flatMap Stretch.sources) := by
  have hcode : Between mark.line last ((codeLines mark code).flatMap Stretch.sources) := by
    rw [sources_codeLines]
    refine between_range fun i hi => ?_
    have hlines := length_linesOf_le code
    omega
  cases kind with
  | declaration | scriptlet => exact hcode
  | expression =>
    unfold scriptStretches printCode
    dsimp only
    split <;> exact between_singleton (by omega)

open Relaxed (Written Laid Spelled)

section

variable {first line : Nat} {piece : List Char} {code : Code}

-- The lines for which a node has statements are lines of its piece.
theorem Says.between (h : Says x id code) (hwritten : Written (x.tree.kind id) piece)
    (hfirst : (x.tree.mark id).line = first) :
    Between first (first + countNewlines piece) (code.flatMap Stretch.sources) := by
  cases h with
  | silent => exact ⟨.nil, by simp⟩
  | insert hk hne =>
    rw [List.flatMap_singleton, Stretch.forMark, hfirst]
    exact between_singleton (Nat.le_add_right _ _)
  | text hk hne =>
    rw [hk] at hwritten
    cases hwritten with
    | @text _ value hspelled _ =>
      rw [List.flatMap_singleton, coveredLines, hfirst]
      refine between_range fun i hi => ?_
      have hlines := length_newlines value
      rw [← hspelled.countNewlines_eq] at hlines
      simp only [TextRun.ofChars, TextRun.ofText, String.toList_ofList, hlines] at hi ⊢
      split at hi <;> omega
    | construct _ hreads => cases hreads
  | @script kind script hk =>
    rw [← hfirst]
    refine between_scriptStretches ?_
    rw [Tree.scriptText, Tree.scriptText?, hk]
    rw [hk] at hwritten
    cases hwritten with
    | construct _ hreads =>
      cases hreads with
      | script _ code =>
        simp only [Option.getD_some, String.toList_ofList, countNewlines_unescapeCode,
          countNewlines_append]
        omega
      | scriptElement _ before code behind =>
        simp only [Option.getD_some, String.toList_ofList, countNewlines_append]
        omega

-- By induction on the nodes: the pieces follow one another.
theorem between_saying {pieces : List (NodeId × List Char)} {codes : List Code}
    (h : List.Forall₂ (Says x) (pieces.map Prod.fst) codes) (hlaid : Laid x.tree first pieces) :
    Between first (first + countNewlines (pieces.flatMap Prod.snd))
      (codes.flatten.flatMap Stretch.sources) := by
  induction pieces generalizing first codes with
  | nil =>
    cases h
    exact ⟨.nil, by simp⟩
  | cons piece pieces ih =>
    cases h with
    | cons hsays hrest =>
      obtain ⟨hfirst, hwritten, hlaid⟩ := hlaid
      have hpiece := hsays.between hwritten hfirst
      rw [List.flatten_cons, List.flatMap_append, List.flatMap_cons, countNewlines_append,
        ← Nat.add_assoc]
      exact hpiece.append (ih hrest hlaid) (Nat.le_add_right _ _) (Nat.le_add_right _ _)

-- A line of a unit on which a text has a character, or on which an expression begins: the node is
-- read from a piece that starts on the given line.
inductive Occupied (t : Tree) (id : NodeId) (piece : List Char) (first : Nat) : Nat → Prop
  | text {run : TextRun} {front rest : List Char} {c : Char} (hk : t.kind id = .text run)
      (hc : piece = front ++ c :: rest) : Occupied t id piece first (first + countNewlines front)
  | insert {data : Insert} (hk : t.kind id = .insert data) : Occupied t id piece first first
  | expression {script : Script} (hk : t.kind id = .script .expression script)
      (hne : blank (t.scriptText id) = false) : Occupied t id piece first first

-- Such a line is among those for which the node has statements.
theorem Says.covers (h : Says x id code) (hwritten : Written (x.tree.kind id) piece)
    (hfirst : (x.tree.mark id).line = first) (hline : Occupied x.tree id piece first line) :
    ∃ stretch ∈ code, stretch.lines ≠ [] ∧ stretch.unit = (x.tree.mark id).unit ∧
      line ∈ stretch.sources := by
  cases hline with
  | @text run front rest c hk hc =>
    rw [hk] at hwritten
    cases hwritten with
    | construct _ hreads => cases hreads
    | @text _ value hspelled hne =>
      cases h with
      | insert hk' | script hk' => cases hk.symm.trans hk'
      | silent hrun =>
        have hempty := congrArg String.toList (hrun _ hk)
        rw [TextRun.ofChars, TextRun.ofText, String.toList_ofList] at hempty
        exact absurd hempty hne
      | @text run lines hk' hlines =>
        obtain rfl : TextRun.ofChars value = run := by simpa using hk.symm.trans hk'
        refine ⟨_, List.mem_singleton_self _, hlines, rfl, ?_⟩
        have hcount := hspelled.countNewlines_eq
        have hlast := hspelled.getLast?_eq
        rw [hc] at hcount hlast
        rw [countNewlines_append] at hcount
        have hnewlines := length_newlines value
        simp only [coveredLines, TextRun.ofChars, TextRun.ofText, String.toList_ofList, hnewlines,
          hfirst]
        refine List.mem_map.mpr ⟨countNewlines front, List.mem_range.mpr ?_, rfl⟩
        split
        · rename_i hends
          -- The line feed at the end of the text ends its last line.
          have hfeed := ends_newline_iff.mp hends
          rw [String.toList_ofList] at hfeed
          rw [hfeed] at hlast
          have hmem : '\n' ∈ c :: rest := by
            rw [List.getLast?_append_of_ne_nil _ (by simp)] at hlast
            exact List.mem_of_getLast? hlast
          have hpos : 0 < countNewlines (c :: rest) :=
            List.countP_pos_iff.mpr ⟨_, hmem, beq_self_eq_true _⟩
          omega
        · omega
  | insert hk =>
    cases h with
    | insert _ hlines =>
      exact ⟨_, List.mem_singleton_self _, hlines, rfl, by simp [Stretch.forMark, hfirst]⟩
    | text hk' | script hk' => cases hk.symm.trans hk'
    | silent _ hinsert => exact absurd hk (hinsert _)
  | expression hk hne =>
    cases h with
    | script hk' =>
      obtain ⟨stretch, hmem, hlines, hsource⟩ := exists_scriptStretch hne
      refine ⟨stretch, hmem, hlines, (sources_of_mem_scriptStretches hmem).1, ?_⟩
      rwa [hfirst] at hsource
    | text hk' | insert hk' => cases hk.symm.trans hk'
    | silent _ _ hscript => exact absurd hk (hscript _ _)

-- One of the nodes that are read from the pieces has such a line.
def Filled (t : Tree) (pieces : List (NodeId × List Char)) (line : Nat) : Prop :=
  ∃ before id piece behind, pieces = before ++ (id, piece) :: behind ∧
    Occupied t id piece (1 + countNewlines (before.flatMap Prod.snd)) line

end

-- The entries of stretches are in the order of their lines.
theorem pairwise_entriesFrom {code : Code}
    (h : (code.flatMap Stretch.sources).Pairwise (· ≤ ·)) (start : Nat) :
    (code.entriesFrom start).Pairwise fun e e' => e.source ≤ e'.source ∧ e.first ≤ e'.first := by
  induction code generalizing start with
  | nil => exact .nil
  | cons stretch code ih =>
    rw [List.flatMap_cons] at h
    obtain ⟨hstretch, hcode, hbetween⟩ := List.pairwise_append.mp h
    rw [Code.entriesFrom, Code.entriesFrom_eq]
    refine List.pairwise_append.mpr ⟨?_, Code.entriesFrom_eq _ code ▸ ih hcode _, ?_⟩
    · unfold Stretch.entries
      split
      · exact .nil
      · exact List.pairwise_map.mpr (hstretch.imp fun hle => ⟨hle, Nat.le_refl _⟩)
    · intro e he e' he'
      obtain ⟨place, hplace, he'⟩ := List.mem_flatMap.mp he'
      obtain ⟨hmem, hbehind, -⟩ := Code.mem_placed hplace
      obtain ⟨-, -, hsource, hfirst, -⟩ := mem_entries.mp he
      obtain ⟨-, -, hsource', hfirst', -⟩ := mem_entries.mp he'
      have hin := List.mem_flatMap.mpr ⟨_, hmem, hsource'⟩
      exact ⟨hbetween _ hsource _ hin, by omega⟩

-- Without declarations and methods of its own, the class of a page has stretches in one place.
theorem placedFrom_sections {package name : String} {body : Code} {s : State}
    (h : State.Quiet {} s) (line : Nat) :
    ∃ start, placedFrom line (sections x package name body s) = body.placed start := by
  unfold sections
  rw [h.declarations, h.methods, h.deferred]
  exact ⟨_, List.append_nil _⟩

end ClassText

open ClassText

-- All of a plain page is in the unit of its root.
theorem Page.mark_unit_of_plain {o : Options} {loader : Loader} {resolver resolver' : Resolver}
    {name : String} {page : Page} (h : read o loader resolver name = (.ok page, resolver'))
    (hplain : page.tree.Plain) {root : UnitRoot} (hroot : page.tree.kind Tree.root = .root root)
    {id : NodeId} (hid : id < page.tree.size) : (page.tree.mark id).unit = root.unit := by
  obtain ⟨data, text, hdata, hunit, -⟩ := unitRoot_read h hid
  have honly := hplain.onlyPlain (arranged_read h)
  rcases Nat.eq_zero_or_pos (page.tree.unitRoot id) with hzero | hpos
  · rw [hzero] at hdata
    cases hroot.symm.trans hdata
    exact hunit
  · have hnode := honly _ hpos ((page.tree.unitRoot_le id).trans_lt hid)
    rw [Node.isPlain, show (page.tree.node _).kind = _ from hdata] at hnode
    cases hnode

-- None of its directives turns blanks off.
theorem Page.check_keepsBlanks {o : Options} {page : Page} {c : CheckedPage}
    (h : page.check o = .ok c) (ht : page.tree.Arranged) (hplain : page.tree.Plain)
    (htrim : o.trimDirectiveWhitespaces = false) :
    c.settings.trimDirectiveWhitespaces = false := by
  have hvalue := Settings.value_of_reconcile Settings.governs_trimDirectiveWhitespaces
    (check_settings h)
  refine (hvalue.2 fun d hd => ?_).trans htrim
  obtain ⟨hmem, hkind, hattr⟩ := Tree.mem_directed.mp hd
  have hlt := Tree.lt_size_of_mem_entered ht.wellFormed _ hmem
  obtain ⟨data, hroot, -⟩ := hplain.relaxed
  have hpos : 0 < d.directive := by
    refine Nat.pos_of_ne_zero fun hzero => ?_
    rw [hzero] at hkind
    cases hkind.symm.trans hroot
  have hnode := hplain.onlyPlain ht _ hpos hlt
  rw [Node.isPlain, show (page.tree.node _).kind = _ from hkind] at hnode
  simpa using List.all_eq_true.mp hnode _ hattr

-- The map of a page without actions is in the order of the lines, both of its unit and of the
-- class. The nodes of the page are read from consecutive pieces of the text of the unit, and every
-- line on which a piece of text has a character, or on which an expression begins, has an entry.
theorem CompiledPage.lineMap_ordered {o : Options} {loader : Loader}
    {resolver resolver' resolver'' : Resolver} {name : String} {p : CompiledPage} {page : Page}
    (h : CompiledPage.ofUnit o loader resolver name = (.ok p, resolver'))
    (hread : Page.read o loader resolver name = (.ok page, resolver''))
    (htrim : o.trimDirectiveWhitespaces = false) (hplain : page.tree.Plain) :
    p.lineMap.entries.Pairwise (fun e e' => e.source ≤ e'.source ∧ e.first ≤ e'.first) ∧
      ∃ root text pieces, page.tree.kind Tree.root = .root root ∧ Page.Loaded o loader root text ∧
        pieces.map Prod.fst = page.tree.children Tree.root ∧ pieces.flatMap Prod.snd = text ∧
        Relaxed.Laid page.tree 1 pieces ∧
        ∀ line, Filled page.tree pieces line →
          ∃ e ∈ p.lineMap.entries, e.unit = root.unit ∧ e.source = line := by
  obtain ⟨c, body, s, hmapped⟩ := exists_mapped h
  obtain ⟨r, hchecked⟩ := hmapped.checked
  obtain ⟨page', hread', hcheck⟩ := CheckedPage.ofUnit_eq_ok hchecked
  obtain rfl : page = page' := by
    cases hread.symm.trans hread'
    rfl
  have ht := Page.arranged_read hread
  obtain ⟨hpage, -⟩ := Page.check_established hcheck fun id => ht.wellFormed.lt_size_of_mem_preorder
  subst hpage
  obtain ⟨root, text, hroot, hloaded, pieces, hids, htext, hlt, hlaid⟩ :=
    Page.spans_read hread htrim hplain
  have hchildren : ∀ id ∈ c.page.tree.children Tree.root, (c.page.tree.node id).isPlain :=
    fun id hid => hplain.nodes id
      (ht.wellFormed.child_mem_preorder ht.wellFormed.root_mem_preorder hid)
      (ht.wellFormed.child_lt hid).1.ne'
  obtain ⟨codes, rfl, hsays, hquiet⟩ := says_of_pageCode (x := ⟨o, c⟩) ht.wellFormed.root_lt hroot
    hchildren (Page.check_keepsBlanks hcheck ht hplain htrim) hmapped.generated
  -- The entries of the class are those of the stretches of its only code.
  obtain ⟨start, hplaced⟩ : ∃ start, placedFrom 1
      (sections ⟨o, c⟩ p.package p.className codes.flatten s) = Code.placed start codes.flatten :=
    placedFrom_sections hquiet 1
  have hentries := hmapped.entries_eq
  rw [hplaced] at hentries
  rw [show (Context.tree ⟨o, c⟩).children Tree.root = _ from hids.symm] at hsays
  refine ⟨?_, root, text, pieces, hroot, hloaded, hids, htext, hlaid, fun line hline => ?_⟩
  · rw [hentries, ← Code.entriesFrom_eq]
    exact pairwise_entriesFrom (between_saying hsays hlaid).1 start
  · obtain ⟨before, id, piece, behind, rfl, hoccupied⟩ := hline
    obtain ⟨-, hfirst, hwritten, -⟩ := Relaxed.laid_append.mp hlaid
    obtain ⟨code, hcode, hsaid⟩ := exists_saying hsays (List.mem_map_of_mem
      (f := Prod.fst) (List.mem_append_right before (List.mem_cons_self ..)))
    obtain ⟨stretch, hmem, hne, hunit, hsource⟩ := hsaid.covers hwritten hfirst hoccupied
    obtain ⟨first, hplace⟩ : ∃ first, (first, stretch) ∈ Code.placed start codes.flatten :=
      Code.exists_mem_placed (List.mem_flatten.mpr ⟨code, hcode, hmem⟩)
    have hsame := Page.mark_unit_of_plain hread hplain hroot (hlt (id, piece) (by simp))
    refine ⟨⟨stretch.unit, line, first, first + stretch.lines.length - 1⟩, ?_, hunit.trans hsame,
      rfl⟩
    rw [hentries]
    exact List.mem_flatMap.mpr ⟨_, hplace, mem_entries.mpr ⟨hne, rfl, hsource, rfl, rfl⟩⟩

-- A text of two lines, and an expression on the third.
theorem CompiledPage.lineMap_ordered_sample :
    ∃ p page resolver resolver' pieces,
      CompiledPage.ofUnit {} plainUnits (.ofLibraries []) "main.page" = (.ok p, resolver) ∧
      Page.read {} plainUnits (.ofLibraries []) "main.page" = (.ok page, resolver') ∧
      page.tree.Plain ∧ p.lineMap.entries.map LineEntry.source = [1, 2, 3] ∧
      p.lineMap.entries.Pairwise (fun e e' => e.source ≤ e'.source ∧ e.first ≤ e'.first) ∧
      pieces.map Prod.fst = page.tree.children Tree.root ∧ Relaxed.Laid page.tree 1 pieces ∧
      ∀ line, Filled page.tree pieces line → line ∈ p.lineMap.entries.map LineEntry.source := by
  have hrun : passes {} plainUnits (.ofLibraries []) "main.page" (fun p c _ _ =>
      decide c.page.tree.Plain && p.lineMap.entries.map LineEntry.source == [1, 2, 3]) = true := by
    decide +kernel
  obtain ⟨p, resolver, hp, htest⟩ := of_passes hrun
  obtain ⟨c, body, s, hmapped⟩ := exists_mapped hp
  obtain ⟨resolver', hchecked⟩ := hmapped.checked
  obtain ⟨page, hread, hcheck⟩ := CheckedPage.ofUnit_eq_ok hchecked
  have htest := htest hmapped.toAssembled
  rw [(Page.check_established hcheck fun id =>
    (Page.arranged_read hread).wellFormed.lt_size_of_mem_preorder).1] at htest
  simp only [Bool.and_eq_true, decide_eq_true_eq, beq_iff_eq] at htest
  obtain ⟨hplain, hsources⟩ := htest
  obtain ⟨hordered, root, text, pieces, -, -, hids, -, hlaid, hfilled⟩ :=
    lineMap_ordered hp hread rfl hplain
  refine ⟨p, page, resolver, resolver', pieces, hp, hread, hplain, hsources, hordered, hids, hlaid,
    fun line hline => ?_⟩
  obtain ⟨e, he, -, rfl⟩ := hfilled line hline
  exact List.mem_map_of_mem he

end PageCompiler
