namespace PageCompiler.Text

def upper (s : String) : String := String.ofList (s.toList.map Char.toUpper)

def lower (s : String) : String := String.ofList (s.toList.map Char.toLower)

def sameLetters (a b : String) : Bool := lower a == lower b

-- The word `true` in any case.
def isTrue (s : String) : Bool := sameLetters s "true"

theorem not_isDigit_of_isAlpha {c : Char} (h : c.isAlpha = true) : c.isDigit = false := by
  have hletter : 'A'.toNat ≤ c.toNat ∧ c.toNat ≤ 'Z'.toNat ∨
      'a'.toNat ≤ c.toNat ∧ c.toNat ≤ 'z'.toNat := by
    rcases Bool.or_eq_true_iff.mp h with h | h
    · exact .inl (of_decide_eq_true h)
    · have hlower : (decide ('a'.val ≤ c.val) && decide (c.val ≤ 'z'.val)) = true := h
      exact .inr ((Bool.and_eq_true_iff.mp hlower).imp of_decide_eq_true of_decide_eq_true)
  rw [← Bool.not_eq_true, Char.isDigit_iff_toNat]
  simp only [Char.reduceToNat] at hletter ⊢
  omega

end PageCompiler.Text
