import PageCompiler.Proofs.Expression.Braces
import PageCompiler.Proofs.Forms.Building
import PageCompiler.Proofs.Forms.Tags

namespace PageCompiler.Relaxed

open Text PageCompiler.Tree Template Builder Cursor

variable {includeUnit : Includer} {root : Nat} {s : State} {b b' : Builder} {fuel : Nat}
  {frames : List Frame} {tail : List Char}

-- Away from end tags and the end of the text there is a construct or a piece of text.
theorem step_inside (hend : ∀ tail, s.cursor.rest ≠ '<' :: '/' :: tail)
    (hne : s.cursor.rest ≠ []) :
    step includeUnit root s b =
      match construct? b.bindings s.cursor.rest with
      | some (kind, behind) =>
        (do
          flush s root
          some <$> readConstruct includeUnit s (s.parent root) kind s.cursor.mark
            (s.cursor.moveTo behind) : BuildM (Option State)) b
      | none => (some <$> readText s : BuildM (Option State)) b := by
  have hclosed : (do
      let frame ← s.frames.head?
      return (frame, ← s.cursor.endTag? frame.name) : Option (Frame × Cursor)) = none := by
    cases s.frames.head? with
    | none => rfl
    | some frame => simp [endTag?_eq_none frame.name hend]
  have hmore : s.cursor.atEnd = false := by
    rw [Cursor.atEnd, List.isEmpty_eq_false_iff]
    exact hne
  unfold step
  dsimp only
  rw [hclosed, hmore]
  dsimp only
  simp only [Bool.false_eq_true, if_false]
  change (match construct? b.bindings s.cursor.rest with
    | some (kind, behind) => _
    | none => _ : BuildM (Option State)) b = _
  cases construct? b.bindings s.cursor.rest with
  | none => rfl
  | some found => rfl

theorem step_construct {kind : Construct} {behind : List Char} {next : Option State}
    (hend : ∀ tail, s.cursor.rest ≠ '<' :: '/' :: tail) (hne : s.cursor.rest ≠ [])
    (hc : construct? b.bindings s.cursor.rest = some (kind, behind))
    (h : step includeUnit root s b = .ok next b') :
    ∃ b₁ s', flush s root b = .ok () b₁ ∧
      readConstruct includeUnit s (s.parent root) kind s.cursor.mark (s.cursor.moveTo behind) b₁ =
        .ok s' b' ∧ next = some s' := by
  rw [step_inside hend hne, hc] at h
  obtain ⟨_, b₁, hflush, h⟩ := BuildM.bind_eq_ok.mp h
  obtain ⟨s', b₂, hread, h⟩ := BuildM.bind_eq_ok.mp h
  cases h
  exact ⟨b₁, s', hflush, hread, rfl⟩

-- A run that comes to a good end, from a state with this text ahead and these elements open. There
-- is a step for every character and one for the end.
structure Going (includeUnit : Includer) (root : Nat) (b' : Builder) (frames : List Frame)
    (tail : List Char) (fuel : Nat) (s : State) (b : Builder) : Prop where
  run_eq : run includeUnit root fuel s b = .ok () b'
  rest_eq : s.cursor.rest = tail
  lt_fuel : tail.length < fuel
  frames_eq : s.frames = frames

theorem Going.step (h : Going includeUnit root b' frames tail fuel s b) :
    ∃ n next b₁, fuel = n + 1 ∧ step includeUnit root s b = .ok next b₁ ∧
      match next with
      | some s' => run includeUnit root n s' b₁ = .ok () b'
      | none => b' = b₁ := by
  obtain ⟨n, rfl⟩ : ∃ n, fuel = n + 1 := ⟨fuel - 1, by have := h.lt_fuel; omega⟩
  have hrun := h.run_eq
  unfold run at hrun
  obtain ⟨next, b₁, hstep, hrun⟩ := BuildM.bind_eq_ok.mp hrun
  refine ⟨n, next, b₁, rfl, hstep, ?_⟩
  cases next with
  | none =>
    cases hrun
    rfl
  | some s' => exact hrun

theorem readText_piece {piece : List Char} {width : Nat}
    (h : textPiece b.scan s.cursor.rest = some (piece, width)) :
    ∃ s', readText s b = .ok s' b ∧ s'.cursor.rest = s.cursor.rest.drop width ∧
      s'.frames = s.frames ∧ s'.text = piece.reverse ++ s.text := by
  refine ⟨{ s with
    cursor := s.cursor.skip width
    text := piece.reverse ++ s.text
    textMark := if s.text.isEmpty then s.cursor.mark else s.textMark }, ?_, rfl, rfl, rfl⟩
  unfold readText
  refine BuildM.bind_eq_ok.mpr ⟨b, b, rfl, ?_⟩
  rw [h]
  rfl

-- A piece of text is taken up and the run goes on behind it.
theorem Going.piece {piece : List Char} {width : Nat} (hw : 0 < width)
    (h : Going includeUnit root b' frames tail fuel s b)
    (hne : tail ≠ []) (hlt : tail.head? ≠ some '<')
    (hp : textPiece b.scan tail = some (piece, width)) :
    ∃ fuel' s', Going includeUnit root b' frames (tail.drop width) fuel' s' b ∧
      s'.text = piece.reverse ++ s.text := by
  obtain ⟨n, next, b₁, rfl, hstep, hrun⟩ := h.step
  obtain ⟨c, cs, rfl⟩ := List.exists_cons_of_ne_nil hne
  have hc : c ≠ '<' := fun hc => hlt (by rw [hc]; rfl)
  have hnone : construct? b.bindings s.cursor.rest = none := by
    rw [h.rest_eq]
    unfold construct?
    split
    · rename_i heq
      exact absurd (List.cons.inj heq).1 hc
    · rfl
  have hend : ∀ rest, s.cursor.rest ≠ '<' :: '/' :: rest := by
    intro rest heq
    rw [h.rest_eq] at heq
    exact hc (List.cons.inj heq).1
  rw [step_inside hend (by rw [h.rest_eq]; exact hne), hnone] at hstep
  rw [← h.rest_eq] at hp
  obtain ⟨s', hread, hrest, hframes, htext⟩ := readText_piece hp
  obtain ⟨s'', b₂, hread', hstep⟩ := BuildM.bind_eq_ok.mp hstep
  rw [hread] at hread'
  cases hread'
  cases hstep
  refine ⟨n, s', ⟨hrun, by rw [hrest, h.rest_eq], ?_, hframes.trans h.frames_eq⟩, htext⟩
  have hlt := h.lt_fuel
  simp only [List.length_drop, List.length_cons] at hlt ⊢
  omega

theorem textPiece_plain {c : Char} (hc : ∀ d ∈ ['<', '\\', '$', '#'], c ≠ d) (scan : ScanOptions)
    (cs : List Char) : textPiece scan (c :: cs) = some ([c], 1) := by
  have hlt : startsWith ['<', '\\', '%'] (c :: cs) = false := by
    simp [Text.startsWith, stripStart?, (hc '<' (by decide)).symm]
  have hescaped : Composite.escaped? (c :: cs) = none :=
    Composite.escaped?_of_delimiter? fun h => absurd h (hc '\\' (by decide))
  have hdelimiter : Composite.delimiter? (c :: cs) = none := by
    unfold Composite.delimiter?
    split
    · rename_i heq
      cases heq
      simp [Dialect.ofSign?, hc '$' (by decide), hc '#' (by decide)]
    · rfl
  simp [textPiece, hlt, hescaped, hdelimiter]

-- By induction on the characters.
theorem Going.text {value : List Char} (hv : isText value)
    (h : Going includeUnit root b' frames (value ++ tail) fuel s b) :
    ∃ fuel' s', Going includeUnit root b' frames tail fuel' s' b ∧
      s'.text.reverse = s.text.reverse ++ value := by
  induction value generalizing fuel s with
  | nil => exact ⟨fuel, s, h, by simp⟩
  | cons c value ih =>
    have hc : ∀ d ∈ ['<', '\\', '$', '#'], c ≠ d := by
      intro d hd
      refine ne_of_lacks hv (List.mem_cons_self ..) ?_
      simp only [List.mem_cons, List.not_mem_nil, or_false] at hd ⊢
      tauto
    have hlt : (c :: value ++ tail).head? ≠ some '<' := by
      simpa using hc '<' (by decide)
    obtain ⟨fuel₁, s₁, hgoing, htext⟩ :=
      h.piece Nat.one_pos (List.cons_ne_nil _ _) hlt (textPiece_plain hc _ _)
    obtain ⟨fuel₂, s₂, hgoing, htext'⟩ := ih (lacks_cons hv) hgoing
    refine ⟨fuel₂, s₂, hgoing, ?_⟩
    rw [htext', htext]
    simp

theorem textPiece_insert {source : List Char} (h : isInsert source) (tail : List Char) :
    textPiece {} (insertText source ++ tail) = some (insertText source, source.length + 3) := by
  simp only [isInsert, Bool.and_eq_true] at h
  obtain ⟨tree, hparse⟩ : ∃ tree, Expression.parse source = .ok tree := by
    cases hp : Expression.parse source with
    | ok tree => exact ⟨tree, rfl⟩
    | error e =>
      rw [hp] at h
      cases h.1
  have hclose := Expression.closeBrace_of_parse hparse tail
  have htext : insertText source ++ tail = '$' :: '{' :: (source ++ '}' :: tail) := by
    simp [insertText]
  have hlt : startsWith "<\\%".toList ('$' :: '{' :: (source ++ '}' :: tail)) = false := rfl
  have hescaped : Composite.escaped? ('$' :: '{' :: (source ++ '}' :: tail)) = none := rfl
  have hdelimiter : (Composite.delimiter? ('$' :: '{' :: (source ++ '}' :: tail))).filter
      (fun d => ScanOptions.recognises {} d.1) = some (.immediate, source ++ '}' :: tail) := rfl
  rw [htext, textPiece, hlt, hescaped, hdelimiter]
  simp [hclose, insertText]

theorem Going.insert {source : List Char} (hs : isInsert source) (hscan : b.scan = {})
    (h : Going includeUnit root b' frames (insertText source ++ tail) fuel s b) :
    ∃ fuel' s', Going includeUnit root b' frames tail fuel' s' b ∧
      s'.text.reverse = s.text.reverse ++ insertText source := by
  have hpiece := textPiece_insert hs tail
  rw [← hscan] at hpiece
  obtain ⟨fuel', s', hgoing, htext⟩ :=
    h.piece (by omega) (by simp [insertText]) (by simp [insertText]) hpiece
  have hdrop : (insertText source ++ tail).drop (source.length + 3) = tail := by
    rw [List.drop_append_of_le_length (by simp [insertText])]
    simp [insertText]
  rw [hdrop] at hgoing
  exact ⟨fuel', s', hgoing, by simp [htext]⟩

theorem cutAt?_percent {code : List Char} (h : '%' ∉ code) (tail : List Char) :
    cutAt? ['%', '>'] (code ++ '%' :: '>' :: tail) = some (code, tail) := by
  induction code with
  | nil => rfl
  | cons c code ih =>
    have hne : '%' ≠ c := by
      rintro rfl
      exact h (List.mem_cons_self ..)
    have hrest := ih fun hm => h (List.mem_cons_of_mem _ hm)
    rw [List.cons_append, cutAt?, Expression.stripStart?_head_ne hne, hrest]
    rfl

theorem unescapeCode_eq {code : List Char} (h : '%' ∉ code) : unescapeCode code = code := by
  have hlist : "%\\>".toList = ['%', '\\', '>'] := rfl
  rw [unescapeCode, hlist, replaceAll]
  induction code with
  | nil => rfl
  | cons c code ih =>
    have hne : '%' ≠ c := by
      rintro rfl
      exact h (List.mem_cons_self ..)
    have hrest := ih fun hm => h (List.mem_cons_of_mem _ hm)
    rw [replaceFrom, if_neg (by simp [Text.startsWith, stripStart?, hne]), hrest]

theorem gap_eq (kind : ScriptKind) (code : List Char) :
    gap kind code = [] ∨ gap kind code = [' '] := by
  unfold gap
  split
  · exact .inr rfl
  · exact .inl rfl

theorem trimmed_gap (kind : ScriptKind) (code : List Char) :
    trimmed (String.ofList (gap kind code ++ code)) = trimmed (String.ofList code) := by
  rcases gap_eq kind code with h | h
  · rw [h, List.nil_append]
  · rw [h]
    simp [trimmed, trim, Text.trimStart, show isBlank ' ' = true by decide]

variable {resolver : Resolver} {space : List Char} {ref : LibraryRef}

theorem flush_extends {u : Unit} (h : flush s root b = .ok u b')
    (hr : Ready resolver (String.ofList space) ref b) (hp : s.parent root < b.tree.size) :
    Extends resolver (String.ofList space) ref b (s.parent root)
      (runShape true s.text.reverse) b' :=
  addText_extends h hr hp

theorem readScript_extends {kind : ScriptKind} {code : List Char} (hcode : isCode code)
    {mark : Mark} {c : Cursor} {s' : State} {parent : Nat}
    (hc : c.rest = gap kind code ++ (code ++ '%' :: '>' :: tail))
    (h : readConstruct includeUnit s parent (.script kind) mark c b = .ok s' b')
    (hr : Ready resolver (String.ofList space) ref b) (hp : parent < b.tree.size) :
    s'.cursor.rest = tail ∧ s'.frames = s.frames ∧ s'.text = [] ∧
      Extends resolver (String.ofList space) ref b parent (.script kind (String.ofList code) .nil)
        b' := by
  have hpercent : '%' ∉ gap kind code ++ code := by
    intro hm
    rcases List.mem_append.mp hm with hm | hm
    · rcases gap_eq kind code with hg | hg <;> rw [hg] at hm <;> revert hm <;> decide
    · exact ne_of_lacks hcode hm (by decide) rfl
  have hcut : cutAt? ['%', '>'] c.rest = some (gap kind code ++ code, tail) := by
    rw [hc, ← List.append_assoc]
    exact cutAt?_percent hpercent tail
  unfold readConstruct at h
  dsimp only at h
  obtain ⟨_, b₁, hreject, h⟩ := BuildM.bind_eq_ok.mp h
  rw [rejectScript_eq_ok hreject] at h
  obtain ⟨⟨written, behind⟩, b₂, hthrough, h⟩ := BuildM.bind_eq_ok.mp h
  unfold readThrough at hthrough
  rw [Cursor.readUntil?, show "%>".toList = ['%', '>'] from rfl, hcut] at hthrough
  cases hthrough
  rw [unescapeCode_eq hpercent] at h
  obtain ⟨_, b₃, hadd, h⟩ := BuildM.bind_eq_ok.mp h
  cases hadd
  cases h
  exact ⟨rfl, rfl, rfl, adds_script hp rfl rfl (trimmed_gap kind code), hr.withTree _⟩

theorem readAction_empty (hb : Usable space) {name : List Char}
    {attrs : List (List Char × List Char)} (ha : ∀ a ∈ attrs, isName a.1 ∧ isValue a.2)
    (hstructured : Structured resolver ref [String.ofList name]) {mark : Mark} {c : Cursor}
    {s' : State} {parent : Nat} (hc : c.rest = attributesText attrs ++ '/' :: '>' :: tail)
    (h : readAction s parent (String.ofList (qualified space name)) mark c b = .ok s' b')
    (hr : Ready resolver (String.ofList space) ref b) (hp : parent < b.tree.size) :
    s'.cursor.rest = tail ∧ s'.frames = s.frames ∧ s'.text = [] ∧
      Extends resolver (String.ofList space) ref b parent
        (.action (String.ofList (qualified space name)) (attributePairs attrs) .nil .nil) b' := by
  obtain ⟨read, behind, hread, hbehind, hpairs, hcode⟩ :=
    readAttributes_written mark tagEnds_stop (meetsEnd_slash tail) ha hc b
  unfold readAction at h
  obtain ⟨_, b₁, hread', h⟩ := BuildM.bind_eq_ok.mp h
  rw [hread] at hread'
  cases hread'
  obtain ⟨id, b₂, hstart, h⟩ := BuildM.bind_eq_ok.mp h
  obtain ⟨rfl, hbegun⟩ := startAction_begun hr hb.ne_standardSpace
    (cutString?_qualified hb.portable name) hstructured hp hstart
  rw [if_pos rfl] at h
  obtain ⟨_, b₃, hfinish, h⟩ := BuildM.bind_eq_ok.mp h
  cases h
  have hext := hbegun.finish hp (ofList_qualified_ne space name) hcode
    (.refl hbegun.ready _) hfinish
  rw [hpairs] at hext
  exact ⟨hbehind, rfl, rfl, hext⟩

theorem readAction_open (hb : Usable space) {name : List Char}
    {attrs : List (List Char × List Char)} (ha : ∀ a ∈ attrs, isName a.1 ∧ isValue a.2)
    (hstructured : Structured resolver ref [String.ofList name]) {mark : Mark} {c : Cursor}
    {s' : State} {parent : Nat} (hc : c.rest = attributesText attrs ++ '>' :: tail)
    (h : readAction s parent (String.ofList (qualified space name)) mark c b = .ok s' b')
    (hr : Ready resolver (String.ofList space) ref b) (hp : parent < b.tree.size) :
    ∃ read scriptless, Given attrs read ∧ s'.cursor.rest = tail ∧ s'.text = [] ∧
      s'.frames = ⟨b.tree.size, String.ofList (qualified space name), scriptless⟩ :: s.frames ∧
      Begun resolver (String.ofList space) ref b parent (String.ofList (qualified space name)) read
        b' := by
  obtain ⟨read, behind, hread, hbehind, hgiven⟩ :=
    readAttributes_written mark tagEnds_stop (meetsEnd_bracket tail) ha hc b
  unfold readAction at h
  obtain ⟨_, b₁, hread', h⟩ := BuildM.bind_eq_ok.mp h
  rw [hread] at hread'
  cases hread'
  obtain ⟨id, b₂, hstart, h⟩ := BuildM.bind_eq_ok.mp h
  obtain ⟨rfl, hbegun⟩ := startAction_begun hr hb.ne_standardSpace
    (cutString?_qualified hb.portable name) hstructured hp hstart
  rw [if_neg (by decide)] at h
  obtain ⟨_, b₃, hopen, h⟩ := BuildM.bind_eq_ok.mp h
  cases hopen
  obtain ⟨_, b₄, hget, h⟩ := BuildM.bind_eq_ok.mp h
  cases hget
  have hbody := hbegun.openBody hp
  cases hcontent : bodyContent? (b₂.tree.openBody b.tree.size) b.tree.size with
  | none =>
    rw [hcontent] at h
    cases h
    exact ⟨read, _, hgiven, hbehind, rfl, rfl, hbody⟩
  | some content =>
    rw [hcontent] at h
    have hverbatim := hbody.not_verbatim
    cases content with
    | verbatim => exact absurd hcontent hverbatim
    | empty =>
      cases h
      exact ⟨read, _, hgiven, hbehind, rfl, rfl, hbody⟩
    | markup =>
      cases h
      exact ⟨read, _, hgiven, hbehind, rfl, rfl, hbody⟩
    | scriptless =>
      cases h
      exact ⟨read, _, hgiven, hbehind, rfl, rfl, hbody⟩

-- The node that what comes next belongs to.
def parentOf (frames : List Frame) (root : Nat) : Nat := (frames.head?.map Frame.id).getD root

theorem Going.parent_eq (h : Going includeUnit root b' frames tail fuel s b) :
    s.parent root = parentOf frames root := by
  rw [State.parent, h.frames_eq, parentOf]

-- The text so far and the construct are taken up one after the other.
theorem Going.construct {kind : Construct} {front behind : List Char}
    (h : Going includeUnit root b' frames (front ++ behind) fuel s b)
    (hend : ∀ rest, front ++ behind ≠ '<' :: '/' :: rest) (hne : front ++ behind ≠ [])
    (hc : construct? b.bindings (front ++ behind) = some (kind, behind))
    (hr : Ready resolver (String.ofList space) ref b) (hp : parentOf frames root < b.tree.size) :
    ∃ n b₁ b₂ mark c s', fuel = n + 1 ∧
      Extends resolver (String.ofList space) ref b (parentOf frames root)
        (runShape true s.text.reverse) b₁ ∧
      parentOf frames root < b₁.tree.size ∧ c.rest = behind ∧
      readConstruct includeUnit s (parentOf frames root) kind mark c b₁ = .ok s' b₂ ∧
      run includeUnit root n s' b₂ = .ok () b' := by
  obtain ⟨n, next, b₂, rfl, hstep, hrun⟩ := h.step
  rw [← h.rest_eq] at hend hne hc
  obtain ⟨b₁, s', hflush, hread, rfl⟩ := step_construct hend hne hc hstep
  have hparent := h.parent_eq
  have hext := flush_extends hflush hr (by rw [hparent]; exact hp)
  rw [hparent] at hext hread
  have hle := hext.adds.size_le
  exact ⟨n, b₁, b₂, _, _, s', rfl, hext, by omega, rest_moveTo h.rest_eq, hread, hrun⟩

theorem Going.script {kind : ScriptKind} {code : List Char} (hcode : isCode code)
    (h : Going includeUnit root b' frames (scriptCode kind code ++ tail) fuel s b)
    (hr : Ready resolver (String.ofList space) ref b) (hp : parentOf frames root < b.tree.size) :
    ∃ fuel' s' b₁, Going includeUnit root b' frames tail fuel' s' b₁ ∧ s'.text = [] ∧
      Extends resolver (String.ofList space) ref b (parentOf frames root)
        ((runShape true s.text.reverse).append (.script kind (String.ofList code) .nil)) b₁ := by
  obtain ⟨behind, hbehind⟩ : ∃ behind, behind = gap kind code ++ (code ++ '%' :: '>' :: tail) :=
    ⟨_, rfl⟩
  have htext : scriptCode kind code ++ tail = ('<' :: '%' :: sign kind) ++ behind := by
    simp [scriptCode, hbehind]
  have hlength := h.lt_fuel
  have hc := construct?_scriptCode b.bindings kind code tail
  rw [htext] at h
  rw [htext, ← hbehind] at hc
  obtain ⟨n, b₁, b₂, mark, c, s', rfl, hext, hp₁, hrest, hread, hrun⟩ :=
    h.construct (by simp) (by simp) hc hr hp
  obtain ⟨hrest', hframes, hempty, hscript⟩ :=
    readScript_extends hcode (hrest.trans hbehind) hread hext.ready hp₁
  refine ⟨n, s', b₂, ⟨hrun, hrest', ?_, hframes.trans h.frames_eq⟩, hempty, hext.trans hp hscript⟩
  simp [scriptCode] at hlength
  omega

theorem stops_attributesText (attrs : List (List Char × List Char)) {rest : List Char}
    (h : Stops rest) : Stops (attributesText attrs ++ rest) := by
  cases attrs with
  | nil => exact h
  | cons a attrs => exact stops_cons (by decide) _

-- The tag of an action, up to its end.
theorem Going.action (hu : Usable space) {name : List Char} (hn : isName name)
    {attrs : List (List Char × List Char)} {close : List Char} (hclose : Stops close)
    (h : Going includeUnit root b' frames
      ('<' :: (tagText (qualified space name) attrs ++ close)) fuel s b)
    (hr : Ready resolver (String.ofList space) ref b) (hp : parentOf frames root < b.tree.size) :
    ∃ n b₁ b₂ mark c s', fuel = n + 1 ∧
      Extends resolver (String.ofList space) ref b (parentOf frames root)
        (runShape true s.text.reverse) b₁ ∧
      parentOf frames root < b₁.tree.size ∧ c.rest = attributesText attrs ++ close ∧
      readAction s (parentOf frames root) (String.ofList (qualified space name)) mark c b₁ =
        .ok s' b₂ ∧
      run includeUnit root n s' b₂ = .ok () b' := by
  have htext : '<' :: (tagText (qualified space name) attrs ++ close) =
      ('<' :: qualified space name) ++ (attributesText attrs ++ close) := by simp [tagText]
  obtain ⟨x, xs, hx, hchar, -⟩ := exists_cons_of_isName (isName_qualified hu.portable hn)
  have hend : ∀ rest, ('<' :: qualified space name) ++ (attributesText attrs ++ close) ≠
      '<' :: '/' :: rest := by
    intro rest heq
    rw [hx] at heq
    obtain rfl : x = '/' := by simpa using (List.cons.inj (List.cons.inj heq).2).1
    exact absurd hchar (by decide)
  rw [htext] at h
  have hc := construct?_action hu.portable hu.not_standard hn hr.isBound
    (stops_attributesText attrs hclose)
  exact h.construct hend (by simp) hc hr hp

-- An end tag closes the innermost element behind the text so far.
theorem Going.close {frame : Frame}
    (h : Going includeUnit root b' (frame :: frames) (endTagText frame.name.toList ++ tail) fuel s
      b) :
    ∃ fuel' s' b₁ b₂, Going includeUnit root b' frames tail fuel' s' b₂ ∧ s'.text = [] ∧
      flush s root b = .ok () b₁ ∧ finishElement frame.id b₁ = .ok () b₂ := by
  obtain ⟨n, next, b₂, rfl, hstep, hrun⟩ := h.step
  obtain ⟨behind, hend, hbehind⟩ := endTag?_endTagText h.rest_eq
  have hclosed : (do
      let frame ← s.frames.head?
      return (frame, ← s.cursor.endTag? frame.name) : Option (Frame × Cursor)) =
      some (frame, behind) := by
    rw [h.frames_eq]
    simp [hend]
  unfold Relaxed.step at hstep
  dsimp only at hstep
  rw [hclosed] at hstep
  obtain ⟨_, b₁, hflush, hstep⟩ := BuildM.bind_eq_ok.mp hstep
  obtain ⟨_, b₃, hfinish, hstep⟩ := BuildM.bind_eq_ok.mp hstep
  cases hstep
  refine ⟨n, _, b₁, b₂, ⟨hrun, hbehind, ?_, by rw [h.frames_eq]; rfl⟩, rfl, hflush, hfinish⟩
  have hlength := h.lt_fuel
  simp [endTagText] at hlength
  omega

-- By induction on the template. What is left of it is text that the next construct, the end tag or
-- the end of the unit makes into nodes.
theorem Going.template {template : Template} (hu : Usable space) (hlegal : template.isLegal)
    (hstructured : Structured resolver ref template.actions)
    (h : Going includeUnit root b' frames (template.write scriptCode space ++ tail) fuel s b)
    (hr : Ready resolver (String.ofList space) ref b) (hp : parentOf frames root < b.tree.size) :
    ∃ fuel' s' b₁, Going includeUnit root b' frames tail fuel' s' b₁ ∧
      ∀ u b₂, flush s' root b₁ = .ok u b₂ →
        Extends resolver (String.ofList space) ref b (parentOf frames root)
          (template.shape true space s.text.reverse) b₂ := by
  induction template generalizing frames tail fuel s b with
  | nil =>
    refine ⟨fuel, s, b, h, fun u b₂ hflush => ?_⟩
    have hext := flush_extends hflush hr (by rw [h.parent_eq]; exact hp)
    rwa [h.parent_eq] at hext
  | text value rest ih =>
    simp only [isLegal, Bool.and_eq_true] at hlegal
    rw [write, List.append_assoc] at h
    obtain ⟨fuel₁, s₁, hgoing, htext⟩ := h.text hlegal.1
    obtain ⟨fuel₂, s₂, b₂, hgoing, hflush⟩ := ih hlegal.2 hstructured hgoing hr hp
    rw [htext] at hflush
    exact ⟨fuel₂, s₂, b₂, hgoing, hflush⟩
  | insert source rest ih =>
    simp only [isLegal, Bool.and_eq_true] at hlegal
    rw [write, List.append_assoc] at h
    obtain ⟨fuel₁, s₁, hgoing, htext⟩ := h.insert hlegal.1 hr.scan_eq
    obtain ⟨fuel₂, s₂, b₂, hgoing, hflush⟩ := ih hlegal.2 hstructured hgoing hr hp
    rw [htext] at hflush
    exact ⟨fuel₂, s₂, b₂, hgoing, hflush⟩
  | script kind code rest ih =>
    simp only [isLegal, Bool.and_eq_true] at hlegal
    rw [write, List.append_assoc] at h
    obtain ⟨fuel₁, s₁, b₁, hgoing, htext, hext⟩ := h.script hlegal.1 hr hp
    have hle := hext.adds.size_le
    obtain ⟨fuel₂, s₂, b₂, hgoing, hflush⟩ := ih hlegal.2 hstructured hgoing hext.ready (by omega)
    refine ⟨fuel₂, s₂, b₂, hgoing, fun u b₃ hf => ?_⟩
    have hall := hext.trans hp (hflush u b₃ hf)
    rwa [htext, Shape.append_assoc] at hall
  | empty name attrs rest ih =>
    simp only [isLegal, Bool.and_eq_true] at hlegal
    obtain ⟨⟨hname, hattrs⟩, hrest⟩ := hlegal
    have hlength := h.lt_fuel
    rw [write, List.cons_append, List.append_assoc] at h
    obtain ⟨n, b₁, b₂, mark, c, s₁, rfl, hext, hp₁, hc, hread, hrun⟩ :=
      h.action hu hname (stops_cons (by decide) _) hr hp
    obtain ⟨hcursor, hframes, htext, haction⟩ := readAction_empty hu (parts_of_isAttribute hattrs)
      (hstructured.mono (by simp [actions])) hc hread hext.ready hp₁
    have hext₂ := hext.trans hp haction
    have hle := hext₂.adds.size_le
    have hgoing :
        Going includeUnit root b' frames (rest.write scriptCode space ++ tail) n s₁ b₂ := by
      refine ⟨hrun, hcursor, ?_, hframes.trans h.frames_eq⟩
      simp only [write, List.length_append, List.length_cons] at hlength ⊢
      omega
    obtain ⟨fuel₂, s₂, b₃, hgoing, hflush⟩ := ih hrest
      (hstructured.mono (by simp [actions])) hgoing hext₂.ready (by omega)
    refine ⟨fuel₂, s₂, b₃, hgoing, fun u b₄ hf => ?_⟩
    have hall := hext₂.trans hp (hflush u b₄ hf)
    rwa [htext, Shape.append_assoc] at hall
  | element name attrs body rest ihb ih =>
    simp only [isLegal, Bool.and_eq_true] at hlegal
    obtain ⟨⟨⟨hname, hattrs⟩, hbody⟩, hrest⟩ := hlegal
    have hlength := h.lt_fuel
    rw [write, List.cons_append, List.append_assoc, List.cons_append, List.append_assoc,
      List.append_assoc] at h
    obtain ⟨n, b₁, b₂, mark, c, s₁, rfl, hext, hp₁, hc, hread, hrun⟩ :=
      h.action hu hname (stops_cons (by decide) _) hr hp
    obtain ⟨read, scriptless, ⟨hpairs, hcode⟩, hcursor, htext, hframes, hbegun⟩ :=
      readAction_open hu (parts_of_isAttribute hattrs)
        (hstructured.mono (by simp [actions])) hc hread hext.ready hp₁
    rw [h.frames_eq] at hframes
    -- The body is read under the new node.
    have hless : (body.write scriptCode space ++ (endTagText (qualified space name) ++
        (rest.write scriptCode space ++ tail))).length < n := by
      simp only [write, List.length_append, List.length_cons] at hlength ⊢
      omega
    have hinside := Going.mk hrun hcursor hless hframes
    have hnew : b₁.tree.size < b₂.tree.size := by
      obtain ⟨_, _, hopen, -⟩ := hbegun.opened
      have := hopen.size_eq
      omega
    obtain ⟨fuel₂, s₂, b₃, hinside, hflush⟩ := ihb hbody
      (hstructured.mono (by simp [actions])) hinside hbegun.ready hnew
    have htag : endTagText (qualified space name) =
        endTagText (String.ofList (qualified space name)).toList := by rw [String.toList_ofList]
    rw [htag] at hinside
    obtain ⟨fuel₃, s₃, b₄, b₅, hgoing, htext₃, hlast, hfinish⟩ := hinside.close
    have haction := hbegun.finish hp₁ (ofList_qualified_ne space name) hcode (hflush _ _ hlast)
      hfinish
    rw [hpairs, htext] at haction
    have hext₂ := hext.trans hp haction
    have hle := hext₂.adds.size_le
    obtain ⟨fuel₄, s₄, b₆, hgoing, hflush⟩ := ih hrest
      (hstructured.mono (by simp [actions])) hgoing hext₂.ready (by omega)
    refine ⟨fuel₄, s₄, b₆, hgoing, fun u b₇ hf => ?_⟩
    have hall := hext₂.trans hp (hflush u b₇ hf)
    rwa [htext₃, Shape.append_assoc] at hall

end PageCompiler.Relaxed
