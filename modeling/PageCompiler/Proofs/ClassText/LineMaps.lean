import PageCompiler.Proofs.ClassText.ClassLines

namespace PageCompiler

open Text

namespace LineEntry

def Disjoint (e e' : LineEntry) : Prop := e.last < e'.first ∨ e'.last < e.first

def SameLines (e e' : LineEntry) : Prop := e.first = e'.first ∧ e.last = e'.last

theorem Disjoint.symm {e e' : LineEntry} (h : e.Disjoint e') : e'.Disjoint e := Or.symm h

theorem covers_iff {e : LineEntry} {line : Nat} :
    e.covers line = true ↔ e.first ≤ line ∧ line ≤ e.last := by
  simp [covers]

end LineEntry

-- Where all entries that cover a line are of one size, the first of them is found.
theorem LineMap.lookup_eq_find? {m : LineMap} {line : Nat}
    (h : ∀ e ∈ m.entries, ∀ e' ∈ m.entries, e.covers line = true → e'.covers line = true →
      e.span = e'.span) :
    m.lookup line = (m.entries.find? fun e => e.covers line).map fun e => (e.unit, e.source) := by
  have hfold : ∀ (entries : List LineEntry) (best : LineEntry),
      (∀ e ∈ entries, e.span = best.span) → entries.foldl narrower (some best) = some best := by
    intro entries best hall
    induction entries with
    | nil => rfl
    | cons e entries ih =>
      obtain ⟨he, hall⟩ := List.forall_mem_cons.mp hall
      rw [List.foldl_cons, narrower, if_neg (by omega)]
      exact ih hall
  rw [lookup, ← List.head?_filter]
  cases hcover : m.entries.filter fun e => e.covers line with
  | nil => rfl
  | cons first rest =>
    have hmem : ∀ e ∈ first :: rest, e ∈ m.entries ∧ e.covers line = true := fun e he =>
      List.mem_filter.mp (hcover ▸ he)
    obtain ⟨hfirst, hrest⟩ := List.forall_mem_cons.mp hmem
    rw [List.foldl_cons, narrower, hfold rest first fun e he =>
      h e (hrest e he).1 first hfirst.1 (hrest e he).2 hfirst.2]
    rfl

namespace ClassText

theorem mem_entries {stretch : Stretch} {start : Nat} {e : LineEntry} :
    e ∈ stretch.entries start ↔ stretch.lines ≠ [] ∧ e.unit = stretch.unit ∧
      e.source ∈ stretch.sources ∧ e.first = start ∧ e.last = start + stretch.lines.length - 1 := by
  unfold Stretch.entries
  split
  · rename_i hempty
    simp [List.isEmpty_iff.mp hempty]
  · rename_i hne
    simp only [List.mem_map]
    constructor
    · rintro ⟨source, hsource, rfl⟩
      exact ⟨fun h => hne (by simp [h]), rfl, hsource, rfl, rfl⟩
    · rintro ⟨-, hunit, hsource, hfirst, hlast⟩
      refine ⟨e.source, hsource, ?_⟩
      cases e
      simp_all

-- Entries are recorded together: for a node, where a stretch of lines starts.
structure Recording where
  node : NodeId
  start : Nat
  stretch : Stretch

def Recording.place (r : Recording) : Nat × Stretch := (r.start, r.stretch)

def Recording.entries (r : Recording) : List LineEntry := r.stretch.entries r.start

-- A stretch is recorded for the node that it is made for.
theorem exists_recordings {x : Context} (places : List (Nat × Stretch))
    (h : ∀ place ∈ places, Owned x place.2) :
    ∃ recordings : List Recording,
      places.flatMap (fun place => place.2.entries place.1) = recordings.flatMap Recording.entries ∧
        (recordings.map Recording.place).Sublist places ∧
        ∀ r ∈ recordings, r.node ∈ x.tree.preorder ∧ Own x r.node r.stretch := by
  induction places with
  | nil => exact ⟨[], rfl, .slnil, by simp⟩
  | cons place places ih =>
    obtain ⟨hplace, hplaces⟩ := List.forall_mem_cons.mp h
    obtain ⟨recordings, hentries, hsub, hall⟩ := ih hplaces
    rcases hplace.owner with hnone | ⟨id, hid, hown⟩
    · refine ⟨recordings, ?_, hsub.cons _, hall⟩
      rw [List.flatMap_cons, hentries]
      simp [Stretch.entries, hnone]
    · refine ⟨⟨id, place.1, place.2⟩ :: recordings, ?_, hsub.cons_cons _,
        List.forall_mem_cons.mpr ⟨⟨hid, hown⟩, hall⟩⟩
      rw [List.flatMap_cons, List.flatMap_cons, hentries]
      rfl

theorem insertCode_eq_forMark {x : Context} {mark : Mark} {data : Insert} {s s' : State}
    {code : Code} (h : insertCode x mark data s = .ok (code, s')) :
    ∃ lines, code = [.forMark mark lines] := by
  unfold insertCode at h
  split at h
  · obtain ⟨lines, s₁, -, h⟩ := bind_run_eq_ok.mp h
    cases pure_run_eq_ok.mp h
    exact ⟨lines, rfl⟩
  · obtain ⟨value, s₁, -, h⟩ := bind_run_eq_ok.mp h
    cases pure_run_eq_ok.mp h
    exact ⟨_, rfl⟩

theorem sources_of_mem_scriptStretches {kind : ScriptKind} {mark : Mark} {code : String}
    {stretch : Stretch} (h : stretch ∈ scriptStretches kind mark code) :
    stretch.unit = mark.unit ∧ ∃ source, stretch.sources = [source] := by
  have hlines : stretch ∈ codeLines mark code →
      stretch.unit = mark.unit ∧ ∃ source, stretch.sources = [source] := by
    intro h
    obtain ⟨entry, -, rfl⟩ := List.mem_map.mp h
    exact ⟨rfl, _, rfl⟩
  cases kind with
  | expression =>
    unfold scriptStretches printCode at h
    dsimp only at h
    split at h
    · obtain rfl := List.mem_singleton.mp h
      exact ⟨rfl, _, rfl⟩
    · obtain rfl := List.mem_singleton.mp h
      exact ⟨rfl, _, rfl⟩
  | declaration | scriptlet => exact hlines h

-- A recording has the unit of its node. Only the lines of a text are recorded together; each of the
-- others is recorded alone.
theorem Own.sources {x : Context} {id : NodeId} {stretch : Stretch} (h : Own x id stretch) :
    stretch.unit = (x.tree.mark id).unit ∧
      ((∃ run, x.tree.kind id = .text run) ∧ stretch.sources.Nodup ∨
        ∃ source, stretch.sources = [source]) := by
  cases h with
  | text hk hlines =>
    refine ⟨rfl, .inl ⟨⟨_, hk⟩, ?_⟩⟩
    exact List.nodup_range.map fun a b h => by simpa using h
  | script hk hmem =>
    obtain ⟨hunit, hsource⟩ := sources_of_mem_scriptStretches hmem
    exact ⟨hunit, .inr hsource⟩
  | insert hk hrun =>
    obtain ⟨lines, hlines⟩ := insertCode_eq_forMark hrun
    cases hlines
    exact ⟨rfl, .inr ⟨_, rfl⟩⟩
  | action hk lines => exact ⟨rfl, .inr ⟨_, rfl⟩⟩

end ClassText

open ClassText

namespace CompiledPage.Mapped

variable {o : Options} {loader : Loader} {resolver : Resolver} {name : String} {p : CompiledPage}
  {c : CheckedPage} {body : Code} {s : State} (h : Mapped o loader resolver name p c body s)
include h

theorem mem_placed {place : Nat × Stretch}
    (hplace : place ∈ placedFrom 1 (sections ⟨o, c⟩ p.package p.className body s)) :
    place.2 ∈ body ++ s.stretches ∧ 1 ≤ place.1 ∧
      place.1 + place.2.lines.length ≤ 1 + countNewlines p.source.toList := by
  obtain ⟨⟨part, hpart, hmem⟩, hstart, hend⟩ := mem_placedFrom (d := 0) hplace
  rw [← h.source_eq_join] at hend
  exact ⟨mem_stretches_sections.mp (List.mem_flatMap.mpr ⟨part, hpart, hmem⟩), hstart, hend⟩

-- The recordings that the map consists of.
theorem exists_recordings : ∃ recordings : List Recording,
    p.lineMap.entries = recordings.flatMap Recording.entries ∧
      recordings.Pairwise (fun r r' => Behind r.place r'.place) ∧
      ∀ r ∈ recordings, r.node ∈ c.page.tree.preorder ∧ Own ⟨o, c⟩ r.node r.stretch ∧
        r.place ∈ placedFrom 1 (sections ⟨o, c⟩ p.package p.className body s) := by
  obtain ⟨recordings, hentries, hsub, hall⟩ := ClassText.exists_recordings
    (placedFrom 1 (sections ⟨o, c⟩ p.package p.className body s))
    fun place hplace => h.owned place.2 (h.mem_placed hplace).1
  refine ⟨recordings, h.entries_eq.trans hentries, ?_, fun r hr => ⟨(hall r hr).1, (hall r hr).2, ?_⟩⟩
  · exact List.pairwise_map.mp ((pairwise_placedFrom 1 _).sublist hsub)
  · exact hsub.subset (List.mem_map_of_mem hr)

end CompiledPage.Mapped

section

variable {recordings : List Recording} {r r' : Recording} {e e' : LineEntry}

-- An entry has at least one line, in the place of its recording.
theorem ClassText.Recording.range (he : e ∈ r.entries) :
    e.first = r.start ∧ e.last + 1 = r.start + r.stretch.lines.length ∧ e.first ≤ e.last := by
  obtain ⟨hne, -, -, hfirst, hlast⟩ := mem_entries.mp he
  have hpos := List.length_pos_iff.mpr hne
  omega

theorem ClassText.Behind.disjoint
    (h : Behind r.place r'.place) (he : e ∈ r.entries)
    (he' : e' ∈ r'.entries) : e.Disjoint e' := by
  have hrange := Recording.range he
  have hrange' := Recording.range he'
  unfold Behind Recording.place at h
  dsimp only at h
  exact .inl (by omega)

-- Entries that are recorded together are those of a text.
theorem ClassText.Recording.pairwise_entries {x : Context} (r : Recording)
    (h : Own x r.node r.stretch) :
    r.entries.Pairwise fun e e' => e.SameLines e' ∧ e.unit = e'.unit ∧ e.source ≠ e'.source ∧
      ∃ run, x.tree.kind r.node = .text run := by
  unfold entries Stretch.entries
  split
  · exact .nil
  · rcases h.sources.2 with ⟨htext, hnodup⟩ | ⟨source, hsource⟩
    · exact List.pairwise_map.mpr (hnodup.imp fun hne => ⟨⟨rfl, rfl⟩, rfl, hne, htext⟩)
    · rw [hsource]
      exact List.pairwise_singleton _ _

-- Recordings with a line in common are one and the same.
theorem ClassText.Recording.eq_of_covers
    (h : recordings.Pairwise fun r r' => Behind r.place r'.place)
    (hr : r ∈ recordings) (hr' : r' ∈ recordings) (he : e ∈ r.entries) (he' : e' ∈ r'.entries)
    {line : Nat} (hcover : e.covers line = true) (hcover' : e'.covers line = true) : r = r' := by
  by_contra hne
  have hdisjoint : e.Disjoint e' := by
    have : Std.Symm fun r r' : Recording => Behind r.place r'.place ∨ Behind r'.place r.place :=
      ⟨fun _ _ => Or.symm⟩
    have hall := h.imp (S := fun r r' : Recording => Behind r.place r'.place ∨
      Behind r'.place r.place) Or.inl
    rcases hall.forall hr hr' hne with h | h
    · exact h.disjoint he he'
    · exact (h.disjoint he' he).symm
  rw [LineEntry.covers_iff] at hcover hcover'
  unfold LineEntry.Disjoint at hdisjoint
  omega

end

-- Two entries of a line map have no line in common, or they were recorded together: for one text,
-- as different lines of its unit, with all their lines in common. All lines are lines of the class,
-- and looking up one of them finds the entries of one node alone.
theorem CompiledPage.unambiguous_ofUnit {o : Options} {loader : Loader}
    {resolver resolver' : Resolver} {name : String} {p : CompiledPage}
    (h : CompiledPage.ofUnit o loader resolver name = (.ok p, resolver')) :
    ∃ c body s, ∃ recordings : List Recording, Mapped o loader resolver name p c body s ∧
      p.lineMap.entries = recordings.flatMap Recording.entries ∧
      (∀ r ∈ recordings, r.node ∈ c.page.tree.preorder ∧ Own ⟨o, c⟩ r.node r.stretch ∧
        r.place ∈ placedFrom 1 (sections ⟨o, c⟩ p.package p.className body s)) ∧
      (∀ e ∈ p.lineMap.entries,
        1 ≤ e.first ∧ e.first ≤ e.last ∧ e.last ≤ countNewlines p.source.toList) ∧
      (p.lineMap.entries.Pairwise fun e e' => e.Disjoint e' ∨
        e.SameLines e' ∧ e.unit = e'.unit ∧ e.source ≠ e'.source ∧
          ∃ r ∈ recordings, (∃ run, c.page.tree.kind r.node = .text run) ∧
            e ∈ r.entries ∧ e' ∈ r.entries) ∧
      ∀ line,
        p.lineMap.lookup line =
            (p.lineMap.entries.find? fun e => e.covers line).map (fun e => (e.unit, e.source)) ∧
          ∀ r ∈ recordings, ∀ r' ∈ recordings, ∀ e ∈ r.entries, ∀ e' ∈ r'.entries,
            e.covers line = true → e'.covers line = true → r = r' := by
  obtain ⟨c, body, s, hmapped⟩ := exists_mapped h
  obtain ⟨recordings, hentries, hbehind, hall⟩ := hmapped.exists_recordings
  have honly : ∀ line, ∀ r ∈ recordings, ∀ r' ∈ recordings, ∀ e ∈ r.entries, ∀ e' ∈ r'.entries,
      e.covers line = true → e'.covers line = true → r = r' := fun line r hr r' hr' e he e' he' =>
    Recording.eq_of_covers hbehind hr hr' he he'
  refine ⟨c, body, s, recordings, hmapped, hentries, hall, fun e he => ?_, ?_, fun line =>
    ⟨LineMap.lookup_eq_find? fun e he e' he' hcover hcover' => ?_, honly line⟩⟩
  · obtain ⟨r, hr, he⟩ := List.mem_flatMap.mp (hentries ▸ he)
    obtain ⟨-, hstart, hend⟩ := hmapped.mem_placed (hall r hr).2.2
    have hrange := Recording.range he
    unfold Recording.place at hstart hend
    dsimp only at hstart hend
    omega
  · rw [hentries, List.pairwise_flatMap]
    refine ⟨fun r hr => ?_, hbehind.imp fun hb e he e' he' => .inl (hb.disjoint he he')⟩
    have hsame := r.pairwise_entries (hall r hr).2.1
    refine hsame.imp_of_mem fun {e e'} he he' ⟨hlines, hunit, hsource, htext⟩ => .inr
      ⟨hlines, hunit, hsource, r, hr, htext, he, he'⟩
  · obtain ⟨r, hr, he⟩ := List.mem_flatMap.mp (hentries ▸ he)
    obtain ⟨r', hr', he'⟩ := List.mem_flatMap.mp (hentries ▸ he')
    obtain rfl := honly line r hr r' hr' e he e' he' hcover hcover'
    have hrange := Recording.range he
    have hrange' := Recording.range he'
    unfold LineEntry.span
    omega

-- A text whose first two lines are written by one statement, and an expression behind it.
def plainUnits : Loader :=
  .ofUnits [("main.page", Utf8.ofString "one\ntwo\n$\x7bthree\x7d")]

theorem CompiledPage.unambiguous_ofUnit_sample :
    ∃ p resolver recordings, CompiledPage.ofUnit {} plainUnits (.ofLibraries []) "main.page" =
        (.ok p, resolver) ∧
      p.lineMap.entries = List.flatMap Recording.entries recordings ∧
      (p.lineMap.entries.map LineEntry.source) = [1, 2, 3] ∧
      p.lineMap.entries.Pairwise fun e e' => e.Disjoint e' ∨
        e.SameLines e' ∧ ∃ r ∈ recordings, e ∈ r.entries ∧ e' ∈ r.entries := by
  have hrun : passes {} plainUnits (.ofLibraries []) "main.page" (fun p _ _ _ =>
      p.lineMap.entries.map LineEntry.source == [1, 2, 3]) = true := by
    decide +kernel
  obtain ⟨p, resolver, hp, htest⟩ := of_passes hrun
  obtain ⟨c, body, s, recordings, hmapped, hentries, -, -, hpairwise, -⟩ := unambiguous_ofUnit hp
  refine ⟨p, resolver, recordings, hp, hentries, by simpa using htest hmapped.toAssembled,
    hpairwise.imp ?_⟩
  rintro e e' (h | ⟨hlines, -, -, r, hr, -, he, he'⟩)
  · exact .inl h
  · exact .inr ⟨hlines, r, hr, he, he'⟩

namespace ClassText

variable {x : Context}

-- Text, expressions and raw code that are not all blank.
def Substantial (x : Context) (id : NodeId) : Prop :=
  match x.tree.kind id with
  | .text run => run.isBlank = false
  | .insert _ => True
  | .script .. => blank (x.tree.scriptText id) = false
  | _ => False

theorem Substantial.speaks {id : NodeId} (h : Substantial x id) : Speaks x id := by
  unfold Substantial at h
  unfold Speaks
  cases hk : x.tree.kind id with
  | text run =>
    simp only [hk] at h
    refine ⟨fun hempty => ?_, ?_⟩
    · rw [TextRun.isBlank, hempty] at h
      cases h
    · unfold isDirectiveBlank
      simp [hk, NodeKind.isBlankText, h]
  | insert => trivial
  | script => simpa only [hk] using h
  | _ => simp only [hk] at h

theorem substantial_of_run? {id : NodeId} {run : TextRun} (hk : (x.tree.kind id).run? = some run)
    (h : run.isBlank = false) : Substantial x id := by
  unfold Substantial
  cases hkind : x.tree.kind id <;> rw [hkind] at hk <;> cases hk
  exact h

-- The generator comes to a child exactly if it goes into the body of the node around it.
theorem Annotated.visits_child_iff (hx : Annotated x) {id child : NodeId}
    (hid : id ∈ x.tree.preorder) (hchild : child ∈ x.tree.children id) :
    Visits x child ↔ ∃ n, Visits x n ∧ id ∈ bodies x n := by
  constructor
  · intro h
    rcases Relation.ReflTransGen.cases_tail h with rfl | ⟨n, hn, host, hhost, hc⟩
    · have hlt := (hx.wellFormed.child_lt hchild).1
      exact absurd hlt (Nat.not_lt_zero _)
    · have hparent := hx.wellFormed.parent_eq hchild
      rw [hx.wellFormed.parent_eq hc] at hparent
      obtain rfl := Option.some.inj hparent
      exact ⟨n, hn, hhost⟩
  · rintro ⟨n, hn, hbody⟩
    exact hn.tail ⟨id, hbody, hchild⟩

end ClassText

-- Whatever the generator comes to that is not blank is written, and recorded under the unit and the
-- line at which it begins. The generator comes to what stands in the bodies that it goes into, and
-- to nothing else: content elsewhere passes the checks all the same and is left out.
theorem CompiledPage.content_ofUnit {o : Options} {loader : Loader}
    {resolver resolver' : Resolver} {name : String} {p : CompiledPage}
    (h : CompiledPage.ofUnit o loader resolver name = (.ok p, resolver')) :
    ∃ c body s, Mapped o loader resolver name p c body s ∧
      (∀ id, Visits ⟨o, c⟩ id → Substantial ⟨o, c⟩ id →
        ∃ place ∈ placedFrom 1 (sections ⟨o, c⟩ p.package p.className body s),
          Own ⟨o, c⟩ id place.2 ∧ place.2.lines ≠ [] ∧
            ∃ e ∈ p.lineMap.entries, e ∈ place.2.entries place.1 ∧
              e.unit = (c.page.tree.mark id).unit ∧ e.source = firstLine ⟨o, c⟩ id) ∧
      ∀ id ∈ c.page.tree.preorder, ∀ child ∈ c.page.tree.children id,
        (Visits ⟨o, c⟩ child ↔ ∃ n, Visits ⟨o, c⟩ n ∧ id ∈ bodies ⟨o, c⟩ n) := by
  obtain ⟨c, body, s, hmapped⟩ := exists_mapped h
  refine ⟨c, body, s, hmapped, fun id hvisits hsubstantial => ?_, fun id hid child hchild =>
    hmapped.annotated.visits_child_iff hid hchild⟩
  obtain ⟨stretch, hmem, hown, hne, hsource⟩ :=
    (hmapped.made id).present ⟨hvisits, hsubstantial.speaks⟩
  obtain ⟨part, hpart, hmem⟩ := List.mem_flatMap.mp (mem_stretches_sections.mpr hmem)
  obtain ⟨start, hplace⟩ := exists_mem_placedFrom hpart hmem
  have hentry : (⟨stretch.unit, firstLine ⟨o, c⟩ id, start, start + stretch.lines.length - 1⟩ :
      LineEntry) ∈ stretch.entries start := mem_entries.mpr ⟨hne, rfl, hsource, rfl, rfl⟩
  refine ⟨(start, stretch), hplace, hown, hne, _, ?_, hentry, hown.sources.1, rfl⟩
  rw [hmapped.entries_eq]
  exact List.mem_flatMap.mpr ⟨_, hplace, hentry⟩

-- A page whose second line has text for an action that does not go into its body.
def includingUnits : Loader :=
  .ofUnits [("main.page", Utf8.ofString "<jsp:include\npage=\"/other.page\">lost</jsp:include>")]

-- The page compiles, and its text is in no line of the class.
theorem CompiledPage.content_ofUnit_dropped :
    ∃ p resolver c body s, CompiledPage.ofUnit {} includingUnits (.ofLibraries []) "main.page" =
        (.ok p, resolver) ∧
      Mapped {} includingUnits (.ofLibraries []) "main.page" p c body s ∧
      2 ∈ c.page.tree.preorder ∧ Substantial ⟨{}, c⟩ 2 ∧ ¬Visits ⟨{}, c⟩ 2 := by
  have hrun : passes {} includingUnits (.ofLibraries []) "main.page" (fun p c _ _ =>
      p.lineMap.entries.map LineEntry.source == [1] && c.page.tree.preorder == [0, 1, 2] &&
        (c.page.tree.kind 2).run?.any (fun run => !run.isBlank) && firstLine ⟨{}, c⟩ 2 == 2) = true := by
    rw [includingUnits, Utf8.ofString_ofList]
    decide +kernel
  obtain ⟨p, resolver, hp, htest⟩ := of_passes hrun
  obtain ⟨c, body, s, hmapped, hcontent, -⟩ := content_ofUnit hp
  have htest := htest hmapped.toAssembled
  simp only [Bool.and_eq_true, beq_iff_eq] at htest
  obtain ⟨⟨⟨hsources, hpreorder⟩, hrun⟩, hfirst⟩ := htest
  have hsubstantial : Substantial ⟨{}, c⟩ 2 := by
    cases hk : (c.page.tree.kind 2).run? with
    | none => simp [hk] at hrun
    | some run => exact substantial_of_run? hk (by simpa [hk] using hrun)
  refine ⟨p, resolver, c, body, s, hp, hmapped, by simp [hpreorder], hsubstantial, fun hvisits => ?_⟩
  obtain ⟨place, -, -, -, e, he, -, -, hsource⟩ := hcontent 2 hvisits hsubstantial
  have hmem := List.mem_map_of_mem (f := LineEntry.source) he
  rw [hsources, hsource, hfirst] at hmem
  simp at hmem

end PageCompiler
