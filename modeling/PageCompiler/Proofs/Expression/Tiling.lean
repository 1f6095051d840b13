import PageCompiler.Proofs.Expression.Braces
import PageCompiler.Proofs.Expression.SourceText
import PageCompiler.Text.Slice

namespace PageCompiler.Composite

open Text

variable {o : ScanOptions} {place : Nat} {text gap lead after s : List Char} {parts : List Part}

-- The text goes on with a delimiter that is recognised.
def opens (o : ScanOptions) (s : List Char) : Bool := (delimiter? s).any fun d => o.recognises d.1

-- The text without the backslashes that stand in front of recognised delimiters.
def resolve (o : ScanOptions) : List Char → List Char
  | [] => []
  | c :: cs => if c = '\\' && opens o cs then resolve o cs else c :: resolve o cs

-- The part that a gap comes to, if it is not empty.
def gapPart (o : ScanOptions) (gap : List Char) : List Part :=
  if gap = [] then [] else [.text (String.ofList (resolve o gap))]

-- Every recognised delimiter in the gap has a backslash in front. `lead` is what stands in front of
-- the gap itself.
def IsGap (o : ScanOptions) (lead gap : List Char) : Prop :=
  ∀ front rest, gap = front ++ rest → opens o rest → (lead ++ front).getLast? = some '\\'

-- A gap ends with the text, or in front of a recognised delimiter that has no backslash in front.
def Ends (o : ScanOptions) (gap after : List Char) : Prop :=
  after = [] ∨ opens o after ∧ gap.getLast? ≠ some '\\'

theorem opens_iff :
    opens o s ↔ ∃ d rest, s = Dialect.sign d :: '{' :: rest ∧ o.recognises d := by
  simp only [opens, Option.any_eq_true, Prod.exists, delimiter?_eq_some]

theorem opens_delimiter (d : Dialect) (rest : List Char) :
    opens o (d.sign :: '{' :: rest) = o.recognises d := by
  rw [opens, delimiter?_eq_some.mpr rfl]
  rfl

-- A delimiter stays one when more text follows.
theorem opens_append (h : opens o s) (after : List Char) : opens o (s ++ after) := by
  obtain ⟨d, rest, rfl, hd⟩ := opens_iff.mp h
  exact opens_iff.mpr ⟨d, rest ++ after, rfl, hd⟩

theorem IsGap.tail {c : Char} (h : IsGap o lead (c :: gap)) : IsGap o (lead ++ [c]) gap := by
  rintro front rest rfl hopen
  rw [List.append_assoc]
  exact h (c :: front) rest rfl hopen

-- What follows a gap does not begin with a brace, so that a brace stands in the gap.
theorem Ends.brace {rest : List Char} (h : Ends o lead after) (hs : gap ++ after = '{' :: rest) :
    ∃ behind, gap = '{' :: behind := by
  cases gap with
  | nil =>
    rw [List.nil_append] at hs
    rcases h with rfl | ⟨h, -⟩
    · cases hs
    · obtain ⟨d, behind, rfl, -⟩ := opens_iff.mp h
      cases d <;> cases hs
  | cons c gap =>
    obtain ⟨rfl, -⟩ := List.cons.inj hs
    exact ⟨gap, rfl⟩

-- A delimiter behind a backslash of a gap stands in the gap as a whole.
theorem Ends.delimiter (h : Ends o (lead ++ '\\' :: gap) after) {d : Dialect} {rest : List Char}
    (hs : gap ++ after = d.sign :: '{' :: rest) : ∃ behind, gap = d.sign :: '{' :: behind := by
  cases gap with
  | nil =>
    rcases h with rfl | ⟨-, hlast⟩
    · cases hs
    · exact absurd (by simp) hlast
  | cons c gap =>
    obtain ⟨rfl, hbrace⟩ := List.cons.inj hs
    obtain ⟨behind, rfl⟩ := h.brace hbrace
    exact ⟨behind, rfl⟩

-- Every text has a gap at its front, up to the first recognised delimiter without a backslash.
theorem exists_gap (o : ScanOptions) (lead s : List Char) :
    ∃ gap after, s = gap ++ after ∧ IsGap o lead gap ∧ Ends o (lead ++ gap) after := by
  induction s generalizing lead with
  | nil =>
    refine ⟨[], [], rfl, ?_, .inl rfl⟩
    intro front rest h hopen
    obtain ⟨-, rfl⟩ := List.append_eq_nil_iff.mp h.symm
    cases hopen
  | cons c s ih =>
    by_cases hhere : opens o (c :: s) ∧ lead.getLast? ≠ some '\\'
    · refine ⟨[], c :: s, rfl, ?_, .inr ⟨hhere.1, by simpa using hhere.2⟩⟩
      intro front rest h hopen
      obtain ⟨-, rfl⟩ := List.append_eq_nil_iff.mp h.symm
      cases hopen
    · obtain ⟨gap, after, rfl, hgap, hend⟩ := ih (lead ++ [c])
      refine ⟨c :: gap, after, rfl, ?_, by simpa using hend⟩
      intro front rest h hopen
      cases front with
      | nil =>
        obtain rfl : c :: gap = rest := h
        have hall := opens_append hopen after
        rw [List.append_nil]
        by_contra hlast
        exact hhere ⟨hall, hlast⟩
      | cons d front =>
        obtain ⟨rfl, rfl⟩ := List.cons.inj h
        have hlast := hgap front rest rfl hopen
        rwa [List.append_assoc] at hlast

theorem resolve_cons {c : Char} (h : c = '\\' → opens o s = false) :
    resolve o (c :: s) = c :: resolve o s := by
  rw [resolve, if_neg]
  rintro hc
  simp only [Bool.and_eq_true, decide_eq_true_eq] at hc
  rw [h hc.1] at hc
  exact absurd hc.2 (by decide)

theorem resolve_delimiter (d : Dialect) (rest : List Char) :
    resolve o (d.sign :: '{' :: rest) = d.sign :: '{' :: resolve o rest := by
  have hsign : d.sign ≠ '\\' := by cases d <;> decide
  rw [resolve_cons fun h => absurd h hsign, resolve_cons fun h => absurd h (by decide)]

theorem resolve_escaped (d : Dialect) (rest : List Char) :
    resolve o ('\\' :: d.sign :: '{' :: rest) =
      if o.recognises d then d.sign :: '{' :: resolve o rest
      else '\\' :: d.sign :: '{' :: resolve o rest := by
  rw [resolve, opens_delimiter]
  by_cases hd : o.recognises d
  · rw [if_pos (by simp [hd]), if_pos hd, resolve_delimiter]
  · rw [if_neg (by simp [hd]), if_neg hd, resolve_delimiter]

-- A character that begins neither an escape nor a recognised delimiter.
theorem scan_bare {c : Char} (he : escaped? (c :: s) = none) (hd : opens o (c :: s) = false) :
    scan o place text (c :: s) = scan o (place + c.utf8Size) (c :: text) s := by
  cases hdelimiter : delimiter? (c :: s) with
  | none => exact scan_plain he hdelimiter
  | some found =>
    obtain ⟨d, rest⟩ := found
    obtain ⟨rfl, rfl⟩ := List.cons.inj (delimiter?_eq_some.mp hdelimiter)
    rw [opens_delimiter] at hd
    exact scan_unrecognised hd

-- By induction on the length of the gap: an escape takes three characters of it at once. Where the
-- text in front ends in a backslash, no delimiter comes next, or it would have been an escape.
theorem scan_gap (hgap : IsGap o lead gap) (hend : Ends o (lead ++ gap) after)
    (hlead : lead.getLast? = some '\\' → delimiter? (gap ++ after) = none) :
    scan o place text (gap ++ after) =
      scan o (place + byteSize gap) ((resolve o gap).reverse ++ text) after := by
  induction hn : gap.length using Nat.strong_induction_on generalizing gap lead place text with
  | _ n ih =>
  cases gap with
  | nil => simp [resolve]
  | cons c gap =>
    cases he : escaped? (c :: (gap ++ after)) with
    | some found =>
      obtain ⟨d, rest⟩ := found
      obtain ⟨rfl, hs⟩ := List.cons.inj (escaped?_eq_some.mp he)
      obtain ⟨behind, rfl⟩ := hend.delimiter hs
      have hrest : ∀ place text, scan o place text (behind ++ after) =
          scan o (place + byteSize behind) ((resolve o behind).reverse ++ text) after :=
        fun place text => ih behind.length (by simp at hn; omega) hgap.tail.tail.tail
          (by simpa using hend) (by simp) rfl
      have hsize : place + byteSize ('\\' :: d.sign :: '{' :: behind) =
          place + 3 + byteSize behind := by
        have hsign : d.sign.utf8Size = 1 := by cases d <;> rfl
        have hslash : '\\'.utf8Size = 1 := rfl
        have hbrace : '{'.utf8Size = 1 := rfl
        simp only [byteSize_cons]
        omega
      simp only [List.cons_append] at hrest ⊢
      rw [scan_escaped, hrest, hsize, resolve_escaped]
      split <;> simp
    | none =>
      have hopen : opens o (c :: (gap ++ after)) = false := by
        by_contra hopen
        obtain ⟨d, rest, hs, hd⟩ := opens_iff.mp (by simpa using hopen)
        obtain ⟨rfl, hbrace⟩ := List.cons.inj hs
        obtain ⟨behind, rfl⟩ := hend.brace hbrace
        have hlast := hgap [] _ rfl (opens_iff.mpr ⟨d, behind, rfl, hd⟩)
        rw [List.append_nil] at hlast
        have hnone := hlead hlast
        rw [List.cons_append, List.cons_append, delimiter?_eq_some.mpr rfl] at hnone
        cases hnone
      have hnext : c = '\\' → delimiter? (gap ++ after) = none := by
        rintro rfl
        exact he
      have hkept : c = '\\' → opens o gap = false := by
        intro hc
        by_contra hopen
        have hall := opens_append (by simpa using hopen) after
        rw [opens, hnext hc] at hall
        cases hall
      have hrest : ∀ place text, scan o place text (gap ++ after) =
          scan o (place + byteSize gap) ((resolve o gap).reverse ++ text) after :=
        fun place text => ih gap.length (by simp at hn; omega) hgap.tail (by simpa using hend)
          (by simpa using hnext) rfl
      rw [List.cons_append, scan_bare he hopen, hrest, resolve_cons hkept, byteSize_cons]
      simp [Nat.add_assoc]

-- An expression with its delimiters.
def Enclosed (d : Dialect) (source : String) : List Char :=
  d.sign :: '{' :: (source.toList ++ ['}'])

theorem byteSize_enclosed (d : Dialect) (source : String) :
    byteSize (Enclosed d source) = byteSize source.toList + 3 := by
  have hsign : d.sign.utf8Size = 1 := by cases d <;> rfl
  have hopen : '{'.utf8Size = 1 := rfl
  have hclose : '}'.utf8Size = 1 := rfl
  simp only [Enclosed, byteSize_cons, byteSize_append, byteSize_nil]
  omega

-- The text from the byte `place` on is made up of gaps and expressions in turn, and the parts are
-- what they come to.
inductive Tiles (o : ScanOptions) : (place : Nat) → List Char → List Part → Prop
  | gap {place : Nat} {gap : List Char} (hgap : IsGap o [] gap) :
      Tiles o place gap (gapPart o gap)
  | expression {place : Nat} {gap rest : List Char} {d : Dialect} {source : String} {tree : Expr}
      {parts : List Part} (hgap : IsGap o [] gap) (hlast : gap.getLast? ≠ some '\\')
      (hd : o.recognises d) (hsource : Expression.parse source.toList = .ok tree)
      (h : Tiles o (place + byteSize (gap ++ Enclosed d source)) rest parts) :
      Tiles o place (gap ++ (Enclosed d source ++ rest))
        (gapPart o gap ++ .expr d source tree (place + byteSize gap) :: parts)

-- What can be wrong with an expression: it is not closed, or what it encloses is rejected. The text
-- that is complained of is everything from the delimiter on, or what it encloses.
inductive Wrong (d : Dialect) (behind : List Char) : String → Expression.Reason → Prop
  | unclosed (h : closeBrace none 0 behind = none) :
      Wrong d behind (String.ofList (d.sign :: '{' :: behind)) .unclosed
  | rejected {body rest : List Char} {reason : Expression.Reason}
      (h : closeBrace none 0 behind = some (body, rest))
      (hbody : Expression.parse body = .error reason) : Wrong d behind (String.ofList body) reason

-- The text is tiled as far as an expression that is wrong.
inductive Stuck (o : ScanOptions) (place : Nat) : List Char → ExpressionError → Prop
  | mk {front behind : List Char} {parts : List Part} {d : Dialect} {expression : String}
      {reason : Expression.Reason} (hfront : Tiles o place front parts)
      (hlast : front.getLast? ≠ some '\\') (hd : o.recognises d)
      (hwrong : Wrong d behind expression reason) :
      Stuck o place (front ++ d.sign :: '{' :: behind)
        ⟨expression, reason, place + byteSize front⟩

-- No gap is lost.
theorem resolve_ne_nil (h : gap ≠ []) : resolve o gap ≠ [] := by
  obtain ⟨c, cs, rfl⟩ := List.exists_cons_of_ne_nil h
  by_cases hc : c = '\\' ∧ opens o cs
  · obtain ⟨rfl, hopen⟩ := hc
    obtain ⟨d, rest, rfl, hd⟩ := opens_iff.mp hopen
    rw [resolve_escaped, if_pos hd]
    simp
  · rw [resolve, if_neg (by simpa using hc)]
    simp

theorem textPart_resolve (o : ScanOptions) (gap : List Char) :
    textPart (resolve o gap).reverse = gapPart o gap := by
  by_cases h : gap = []
  · subst h
    rfl
  · have hne : String.ofList (resolve o gap) ≠ "" := by
      simpa [← String.toList_inj] using resolve_ne_nil h
    have hpart := textPart_reverse hne
    rw [String.toList_ofList] at hpart
    rw [hpart, gapPart, if_neg h]

theorem scan_unclosed {d : Dialect} (hd : o.recognises d) (hs : closeBrace none 0 s = none) :
    scan o place text (d.sign :: '{' :: s) =
      .error ⟨String.ofList (d.sign :: '{' :: s), .unclosed, place⟩ := by
  have he : escaped? (d.sign :: '{' :: s) = none := by cases d <;> rfl
  rw [scan]
  split
  · rename_i he'
    rw [he] at he'
    cases he'
  · split
    · rename_i hn
      rw [delimiter?_eq_some.mpr rfl] at hn
      cases hn
    · rename_i d' s' hs'
      rw [delimiter?_eq_some.mpr rfl] at hs'
      cases hs'
      rw [if_pos hd]
      split
      · rfl
      · rename_i hb
        rw [hs] at hb
        cases hb

-- An expression behind a gap, when it is closed.
theorem scan_expression {d : Dialect} {body rest : List Char} (place : Nat)
    (hgap : IsGap o [] gap) (hlast : gap.getLast? ≠ some '\\') (hd : o.recognises d)
    (hclose : closeBrace none 0 s = some (body, rest)) :
    scan o place [] (gap ++ d.sign :: '{' :: s) =
      match Expression.parse body with
      | .error reason => .error ⟨String.ofList body, reason, place + byteSize gap⟩
      | .ok tree =>
        (scan o (place + byteSize (gap ++ Enclosed d (String.ofList body))) [] rest).map
          fun parts =>
            gapPart o gap ++ .expr d (String.ofList body) tree (place + byteSize gap) :: parts := by
  have hopen : opens o (d.sign :: '{' :: s) := (opens_delimiter ..).trans hd
  have hplace : place + byteSize (gap ++ Enclosed d (String.ofList body)) =
      place + byteSize gap + 3 + byteSize body := by
    rw [byteSize_append, byteSize_enclosed, String.toList_ofList]
    omega
  rw [scan_gap hgap (.inr ⟨hopen, hlast⟩) (by simp), List.append_nil, hplace, ← textPart_resolve]
  exact scan_delimiter hd hclose

-- A tiling is what scanning gives.
theorem Tiles.scan_eq (h : Tiles o place s parts) : scan o place [] s = .ok parts := by
  induction h with
  | @gap place gap hgap =>
    have hscan : scan o place [] (gap ++ []) =
        scan o (place + byteSize gap) ((resolve o gap).reverse ++ []) [] :=
      scan_gap hgap (.inl rfl) (by simp)
    rw [List.append_nil, List.append_nil, scan_nil, textPart_resolve] at hscan
    exact hscan
  | @expression place gap rest d source tree parts hgap hlast hd hsource h ih =>
    have hclose := Expression.closeBrace_of_parse hsource rest
    have hscan := scan_expression place hgap hlast hd hclose
    rw [hsource, String.ofList_toList] at hscan
    dsimp only at hscan
    rw [ih] at hscan
    simpa [Enclosed, Except.map] using hscan

-- Whatever is tiled in front of a text that is stuck.
theorem Stuck.behind {d : Dialect} {source : String} {tree : Expr} {e : ExpressionError}
    (hgap : IsGap o [] gap) (hlast : gap.getLast? ≠ some '\\') (hd : o.recognises d)
    (hsource : Expression.parse source.toList = .ok tree)
    (h : Stuck o (place + byteSize (gap ++ Enclosed d source)) s e) :
    Stuck o place (gap ++ (Enclosed d source ++ s)) e := by
  obtain @⟨front, behind, parts, d', expression, reason, hfront, hend, hd', hwrong⟩ := h
  have hlast' : (gap ++ (Enclosed d source ++ front)).getLast? ≠ some '\\' := by
    cases front with
    | nil =>
      have hbrace : gap ++ (Enclosed d source ++ []) =
          (gap ++ d.sign :: '{' :: source.toList) ++ ['}'] := by simp [Enclosed]
      rw [hbrace, List.getLast?_concat]
      decide
    | cons c front => simpa using hend
  have hstuck := Stuck.mk (.expression hgap hlast hd hsource hfront) hlast' hd' hwrong
  simpa [byteSize_append, Nat.add_assoc] using hstuck

-- Scanning ends behind a tiling, or at an expression that is wrong. By induction on the length of
-- the text, of which every expression takes some.
theorem tiles_or_stuck (o : ScanOptions) (place : Nat) (s : List Char) :
    (∃ parts, scan o place [] s = .ok parts ∧ Tiles o place s parts) ∨
      ∃ e, scan o place [] s = .error e ∧ Stuck o place s e := by
  induction hn : s.length using Nat.strong_induction_on generalizing s place with
  | _ n ih =>
  obtain ⟨gap, after, rfl, hgap, hend⟩ := exists_gap o [] s
  rw [List.nil_append] at hend
  rcases hend with rfl | ⟨hopen, hlast⟩
  · have htiles : Tiles o place gap (gapPart o gap) := .gap hgap
    rw [List.append_nil]
    exact .inl ⟨_, htiles.scan_eq, htiles⟩
  obtain ⟨d, behind, rfl, hd⟩ := opens_iff.mp hopen
  cases hclose : closeBrace none 0 behind with
  | none =>
    refine .inr ⟨_, ?_, .mk (.gap hgap) hlast hd (.unclosed hclose)⟩
    rw [scan_gap hgap (.inr ⟨hopen, hlast⟩) (by simp), scan_unclosed hd hclose]
  | some cut =>
    obtain ⟨body, rest⟩ := cut
    have hscan := scan_expression place hgap hlast hd hclose
    cases hbody : Expression.parse body with
    | error reason =>
      rw [hbody] at hscan
      exact .inr ⟨_, hscan, .mk (.gap hgap) hlast hd (.rejected hclose hbody)⟩
    | ok tree =>
      rw [hbody] at hscan
      have hsource : Expression.parse (String.ofList body).toList = .ok tree := by
        rwa [String.toList_ofList]
      have henclosed : d.sign :: '{' :: behind = Enclosed d (String.ofList body) ++ rest := by
        rw [closeBrace_append hclose]
        simp [Enclosed]
      have hlt : rest.length < n := by
        have hlength := length_closeBrace hclose
        simp at hn
        omega
      rw [hscan, henclosed]
      rcases ih _ hlt (place + byteSize (gap ++ Enclosed d (String.ofList body))) rest rfl with
        ⟨parts, hrest, htiles⟩ | ⟨e, hrest, hstuck⟩
      · exact .inl ⟨_, by rw [hrest]; rfl, .expression hgap hlast hd hsource htiles⟩
      · exact .inr ⟨e, by rw [hrest]; rfl, hstuck.behind hgap hlast hd hsource⟩

theorem parse_eq_ok_iff_tiles {value : List Char} {c : Composite} :
    parse o value = .ok c ↔ Tiles o 0 value c.parts := by
  refine ⟨fun h => ?_, fun h => parse_eq_ok.mpr h.scan_eq⟩
  rw [parse_eq_ok] at h
  rcases tiles_or_stuck o 0 value with ⟨parts, hscan, htiles⟩ | ⟨e, hscan, -⟩
  · rw [h] at hscan
    cases hscan
    exact htiles
  · rw [h] at hscan
    cases hscan

theorem stuck_of_parse {value : List Char} {e : ExpressionError} (h : parse o value = .error e) :
    Stuck o 0 value e := by
  rcases tiles_or_stuck o 0 value with ⟨parts, hscan, -⟩ | ⟨e', hscan, hstuck⟩
  · rw [parse, hscan] at h
    cases h
  · rw [parse, hscan] at h
    cases h
    exact hstuck

-- The bytes between which each expression stands with its delimiters.
def spans (parts : List Part) : List (Nat × Nat) :=
  parts.filterMap fun
    | .expr _ source _ offset => some (offset, offset + (byteSize source.toList + 3))
    | .text _ => none

-- Not two texts.
def Apart : Part → Part → Prop
  | .text _, .text _ => False
  | _, _ => True

theorem not_mem_gapPart {d : Dialect} {source : String} {tree : Expr} {start : Nat} :
    Part.expr d source tree start ∉ gapPart o gap := by
  unfold gapPart
  split <;> simp

-- Where an expression stands.
theorem Tiles.exists_of_mem (h : Tiles o place s parts) {d : Dialect} {source : String}
    {tree : Expr} {start : Nat} (hmem : Part.expr d source tree start ∈ parts) :
    o.recognises d ∧ ∃ before behind, s = before ++ (Enclosed d source ++ behind) ∧
      start = place + byteSize before := by
  induction h with
  | gap hgap => exact absurd hmem not_mem_gapPart
  | @expression place gap rest d' source' tree' parts hgap hlast hd hsource h ih =>
    rcases List.mem_append.mp hmem with hmem | hmem
    · exact absurd hmem not_mem_gapPart
    rcases List.mem_cons.mp hmem with heq | hmem
    · cases heq
      exact ⟨hd, gap, rest, rfl, rfl⟩
    · obtain ⟨hrec, before, behind, rfl, rfl⟩ := ih hmem
      refine ⟨hrec, gap ++ (Enclosed d' source' ++ before), behind, by simp, ?_⟩
      simp only [byteSize_append, Nat.add_assoc]

theorem spans_gapPart (o : ScanOptions) (gap : List Char) : spans (gapPart o gap) = [] := by
  unfold gapPart
  split <;> rfl

-- The expressions lie behind one another.
theorem Tiles.spans_ordered (h : Tiles o place s parts) :
    (spans parts).Pairwise (fun a b => a.1 < b.1 ∧ a.2 ≤ b.1) ∧ ∀ a ∈ spans parts, place ≤ a.1 := by
  induction h with
  | gap hgap =>
    rw [spans_gapPart]
    exact ⟨.nil, by simp⟩
  | @expression place gap rest d source tree parts hgap hlast hd hsource h ih =>
    obtain ⟨hordered, hle⟩ := ih
    have hspans : spans (gapPart o gap ++ .expr d source tree (place + byteSize gap) :: parts) =
        (place + byteSize gap, place + byteSize gap + (byteSize source.toList + 3)) ::
          spans parts := by
      rw [spans, List.filterMap_append, ← spans, spans_gapPart]
      rfl
    have hbehind : ∀ a ∈ spans parts,
        place + byteSize gap + (byteSize source.toList + 3) ≤ a.1 := by
      intro a ha
      have hstart := hle a ha
      rw [byteSize_append, byteSize_enclosed] at hstart
      omega
    rw [hspans]
    refine ⟨List.pairwise_cons.mpr ⟨fun a ha => ?_, hordered⟩, List.forall_mem_cons.mpr
      ⟨Nat.le_add_right .., fun a ha => ?_⟩⟩
    · have hstart := hbehind a ha
      dsimp only
      omega
    · have hstart := hbehind a ha
      omega

-- Texts are not empty, and an expression stands between any two of them.
theorem Legible.texts (h : Legible parts) :
    (∀ t, Part.text t ∈ parts → t ≠ "") ∧ parts.IsChain Apart := by
  induction parts with
  | nil => simp
  | cons part parts ih =>
    cases part with
    | text t =>
      obtain ⟨hne, hrest, hnext⟩ := h
      obtain ⟨hall, hchain⟩ := ih hrest
      refine ⟨fun u hu => ?_, List.isChain_cons.mpr ⟨fun p hp => ?_, hchain⟩⟩
      · rcases List.mem_cons.mp hu with heq | hu
        · cases heq
          exact hne
        · exact hall u hu
      · rcases hnext with rfl | ⟨⟨d, source, tree, offset, rest, rfl⟩, -⟩
        · cases hp
        · cases hp
          trivial
    | expr d source tree offset =>
      obtain ⟨-, -, hrest⟩ := h
      obtain ⟨hall, hchain⟩ := ih hrest
      refine ⟨fun u hu => ?_, List.isChain_cons.mpr ⟨fun p hp => ?_, hchain⟩⟩
      · rcases List.mem_cons.mp hu with heq | hu
        · cases heq
        · exact hall u hu
      · cases p <;> trivial

end PageCompiler.Composite
