import PageCompiler.Proofs.Checking.Faults
import PageCompiler.Proofs.ClassText.Generation

namespace PageCompiler

open ClassText
open Text

variable {o : Options} {loader : Loader} {resolver resolver' : Resolver} {name : String}
  {main : UnitRoot × List Char} {d : Diagnostic}

theorem CheckedPage.within_ofUnit (hmain : Page.outermost o loader name = .ok main)
    (h : CheckedPage.ofUnit o loader resolver name = (.error d, resolver')) :
    d.Within (Page.textsRead o loader resolver name) := by
  unfold ofUnit at h
  cases hread : Page.read o loader resolver name with
  | mk result r =>
    rw [hread] at h
    cases result with
    | error d' =>
      cases h
      exact Page.within_textsRead hmain hread
    | ok page =>
      obtain ⟨hcheck, -⟩ := Prod.mk.inj h
      obtain ⟨hcovered, hsources⟩ := Page.covered_read hread
      rw [← hsources]
      exact Page.failing_check hcovered o d hcheck

-- The generator has no failures of its own but one.
theorem CheckedPage.crossed_of_generate {c : CheckedPage}
    (h : CheckedPage.ofUnit o loader resolver name = (.ok c, resolver'))
    (hd : c.generate o = .error d) : ∃ signature, d = crossed signature := by
  have hcode := (annotated h).outcome_pageCode
  obtain ⟨hok, herror⟩ := generate_of_pageCode c o
  by_cases hall : ∀ id, Visits ⟨o, c⟩ id → Legible ⟨o, c⟩ id
  · obtain ⟨r, hr⟩ := hcode.ok hall {}
    obtain ⟨p, hp⟩ := hok hr
    rw [hp] at hd
    cases hd
  · obtain ⟨signature, hs⟩ := hcode.error hall {}
    rw [herror hs] at hd
    exact ⟨signature, (Except.error.inj hd).symm⟩

-- When the outermost unit can be loaded and decoded, every failure points into the text of a unit
-- that has been read for the page: at the byte behind its place, or at nothing when the place is
-- the end. There is no place only where the generator breaks off at a signature whose parentheses
-- are crossed, which is not told as a failure of the page.
theorem CompiledPage.placed_ofUnit (hmain : Page.outermost o loader name = .ok main)
    (h : CompiledPage.ofUnit o loader resolver name = (.error d, resolver')) :
    (∃ signature, d = crossed signature) ∨
      ∃ mark data text, d.mark = some mark ∧ Page.Loaded o loader data text ∧
        data.unit = mark.unit ∧
        (Page.textsRead o loader resolver name).find? mark.unit = some (String.ofList text) ∧
        mark.offset ≤ byteSize text ∧
        d.span = (mark.offset, if mark.offset < byteSize text then 1 else 0) := by
  unfold ofUnit at h
  cases hchecked : CheckedPage.ofUnit o loader resolver name with
  | mk result r =>
    rw [hchecked] at h
    cases result with
    | ok c =>
      obtain ⟨hgenerate, -⟩ := Prod.mk.inj h
      exact .inl (CheckedPage.crossed_of_generate hchecked hgenerate)
    | error d' =>
      cases h
      obtain ⟨mark, text, hmark, hfound, hle, -, hspan⟩ :=
        CheckedPage.within_ofUnit hmain hchecked
      obtain ⟨data, chars, hloaded, hunit, rfl⟩ := Page.loaded_textsRead hfound
      rw [utf8ByteSize_ofList] at hle hspan
      exact .inr ⟨mark, data, chars, hmark, hloaded, hunit, hfound, hle, hspan⟩

-- A page that includes a unit which breaks off in a directive.
def brokenOffUnits : Loader :=
  .ofUnits
    [("main.page", Text.Utf8.ofString "<%@ include file=\"part.page\" %>"),
      ("part.page", Text.Utf8.ofString "<%@ page a")]

-- What is missing is told to be missing at the end of the included unit.
theorem CompiledPage.placed_ofUnit_included :
    ∃ d resolver, CompiledPage.ofUnit {} brokenOffUnits (.ofLibraries []) "main.page" =
        (.error d, resolver) ∧
      ∃ mark data text, d.mark = some mark ∧ Page.Loaded {} brokenOffUnits data text ∧
        data.unit = "/part.page" ∧ mark.unit = "/part.page" ∧ mark.offset = byteSize text ∧
        d.span = (mark.offset, 0) := by
  have hmain : (Page.outermost {} brokenOffUnits "main.page").toOption.isSome := by decide +kernel
  have hrun : (match CompiledPage.ofUnit {} brokenOffUnits (.ofLibraries []) "main.page" with
      | (.error d, _) => d.mark.any fun mark => mark.unit == "/part.page" && d.span.2 == 0
      | (.ok _, _) => false) = true := by decide +kernel
  cases houtermost : Page.outermost {} brokenOffUnits "main.page" with
  | error d =>
    rw [houtermost] at hmain
    cases hmain
  | ok main =>
    split at hrun
    · rename_i d resolver h
      rcases placed_ofUnit houtermost h with ⟨signature, rfl⟩ | hplaced
      · cases hrun
      · obtain ⟨mark, data, text, hmark, hloaded, hunit, -, hle, hspan⟩ := hplaced
        rw [hmark, hspan] at hrun
        obtain ⟨hname, hlength⟩ : mark.unit = "/part.page" ∧ ¬mark.offset < byteSize text := by
          simpa using hrun
        rw [if_neg hlength] at hspan
        exact ⟨d, resolver, h, mark, data, text, hmark, hloaded, hunit.trans hname, hname,
          by omega, hspan⟩
    · cases hrun

end PageCompiler
