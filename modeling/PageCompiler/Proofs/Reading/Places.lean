import PageCompiler.Proofs.Reading.PageStages

namespace PageCompiler

open Text

namespace Sighting

-- How the expression and what is in front of it in its run are written in a unit of either form.
structure Fits (s : Sighting) (root : UnitRoot) (text : List Char) (data : Insert) : Prop where
  text_eq : s.text = text
  values_eq : s.spelled.values = Composite.Enclosed data.dialect data.source
  skipped : s.skipped = [] ∨ root.form = .strict ∧ ∃ c : Char, s.skipped = [c] ∧ c.toNat = 0xFEFF
  relaxed : root.form = .relaxed → ∀ l ∈ s.before ++ s.spelled, l.Literal ∨ l = .opening
  -- In a document the expression is part of a run of character data, and stands behind its start.
  strict : root.form = .strict → ∃ (after : Letters) (rest : List Char),
    Markup.Gathered text s.front (s.before ++ s.spelled ++ after) rest ∧
      s.behind = after.source ++ rest

-- A letter that is read as the sign or the brace of an expression is no escaped opening.
theorem literal_of_value_ne {l : Letter} (h : l.Literal ∨ l = .opening) (hne : l.value ≠ '%') :
    l.Literal :=
  h.resolve_right fun heq => hne (heq ▸ rfl)

-- Where its sign and brace are written as they are, the expression begins at its place.
theorem Fits.begins {s : Sighting} {root : UnitRoot} {text : List Char} {data : Insert}
    (h : s.Fits root text data) (hplain : root.form = .relaxed ∨ ∀ l ∈ s.spelled, l.Literal) :
    ∃ front behind, text = front ++ data.dialect.sign :: '{' :: behind ∧
      byteSize front = s.place := by
  obtain ⟨sign, spelled, hs, hsign, hrest⟩ := List.map_eq_cons_iff.mp h.values_eq
  obtain ⟨brace, spelled, rfl, hbrace, -⟩ := List.map_eq_cons_iff.mp hrest
  have hmem : sign ∈ s.spelled ∧ brace ∈ s.spelled := by simp [hs]
  have hliteral : sign.Literal ∧ brace.Literal := by
    rcases hplain with hrelaxed | hall
    · have hletters := h.relaxed hrelaxed
      refine ⟨literal_of_value_ne (hletters _ (List.mem_append_right _ hmem.1)) ?_,
        literal_of_value_ne (hletters _ (List.mem_append_right _ hmem.2)) ?_⟩
      · rw [hsign]
        cases data.dialect <;> decide
      · rw [hbrace]
        decide
    · exact ⟨hall _ hmem.1, hall _ hmem.2⟩
  have hgap : s.gap = [] := by
    rw [gap, hs]
    exact hliteral.1.1
  refine ⟨s.skipped ++ s.front ++ s.before.source, Letters.source spelled ++ s.behind, ?_, ?_⟩
  · rw [← h.text_eq, Sighting.text, hs]
    simp [Letters.source, hliteral.1.source_eq, hliteral.2.source_eq, hsign, hbrace]
  · rw [place, hgap, List.append_nil]

end Sighting

namespace Page

open Builder

variable {o : Options} {loader : Loader}

end Page

end PageCompiler
