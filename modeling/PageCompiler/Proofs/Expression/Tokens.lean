import PageCompiler.Expression.Grammar
import PageCompiler.Text.Letters
import Mathlib

-- The tokens of an expression stand with one blank between any two; parentheses stand only where
-- the order of the levels asks for them. What follows a written token is empty or starts with a
-- blank, so that it never runs into the next one and is read as it was written.
namespace PageCompiler

-- Levels are counted from the weakest one: the conditional has level 0, the operators of the
-- grammar's `levels` come next, and the last two are those of unary operators and of suffixes.
def unaryLevel : Nat := 8

def suffixLevel : Nat := 9

namespace BinaryOp

def level : BinaryOp → Nat
  | or => 1
  | and => 2
  | eq | ne => 3
  | lt | gt | le | ge => 4
  | concat => 5
  | add | sub => 6
  | mul | div | mod => 7

def token : BinaryOp → String
  | or => "||"
  | and => "&&"
  | eq => "=="
  | ne => "!="
  | lt => "<"
  | gt => ">"
  | le => "<="
  | ge => ">="
  | concat => "+="
  | add => "+"
  | sub => "-"
  | mul => "*"
  | div => "/"
  | mod => "%"

end BinaryOp

def UnaryOp.token : UnaryOp → String
  | negate => "-"
  | not => "!"
  | empty => "empty"

abbrev Token := List Char

namespace Expr

def level : Expr → Nat
  | conditional .. => 0
  | binary op .. => op.level
  | unary .. => unaryLevel
  | _ => suffixLevel

-- The tokens of an expression where at least the given level is asked for.
def enclosed (least level : Nat) (ts : List Token) : List Token :=
  if level < least then "(".toList :: (ts ++ [")".toList]) else ts

-- A text between double quotes, in which quotes and backslashes are covered by a backslash.
def escapedText : List Char → List Char
  | [] => []
  | c :: cs => if c = '"' || c = '\\' then '\\' :: c :: escapedText cs else c :: escapedText cs

def textToken (s : String) : Token := '"' :: (escapedText s.toList ++ ['"'])

def functionToken (space : Option String) (name : String) : Token :=
  match space with
  | some space => space.toList ++ ':' :: name.toList
  | none => name.toList

mutual

-- Decimal literals have no written form here.
def tokens : Expr → List Token
  | null => ["null".toList]
  | bool b => [if b then "true".toList else "false".toList]
  | integer n => [Nat.toDigits 10 n]
  | decimal _ => []
  | text s => [textToken s]
  | identifier name => [name.toList]
  | property base name => enclosed suffixLevel base.level base.tokens ++ [".".toList, name.toList]
  | index base key =>
    enclosed suffixLevel base.level base.tokens ++ "[".toList :: (key.tokens ++ ["]".toList])
  | method base name args =>
    enclosed suffixLevel base.level base.tokens ++
      ".".toList :: name.toList :: "(".toList :: (argTokens args ++ [")".toList])
  | call space name args =>
    functionToken space name :: "(".toList :: (argTokens args ++ [")".toList])
  | unary op operand => op.token.toList :: enclosed unaryLevel operand.level operand.tokens
  | binary op lhs rhs =>
    enclosed op.level lhs.level lhs.tokens ++
      op.token.toList :: enclosed (op.level + 1) rhs.level rhs.tokens
  | conditional condition yes no =>
    enclosed 1 condition.level condition.tokens ++
      "?".toList :: (yes.tokens ++ ":".toList :: no.tokens)

def argTokens : List Expr → List Token
  | [] => []
  | e :: rest => e.tokens ++ moreTokens rest

-- The arguments behind the first one, each after a comma.
def moreTokens : List Expr → List Token
  | [] => []
  | e :: rest => ",".toList :: (e.tokens ++ moreTokens rest)

end

def tokensAt (least : Nat) (e : Expr) : List Token := enclosed least e.level e.tokens

def render (e : Expr) : List Char := List.intercalate [' '] e.tokens

def isName : List Char → Bool
  | [] => false
  | c :: cs => Expression.isNameStart c && cs.all Expression.isNameChar

-- Words that never start a function call: what they mean by themselves is read first.
def leadingWords : List String := ["not", "empty", "true", "false", "null"]

mutual

def Writable : Expr → Prop
  | null | bool _ | text _ => True
  | integer n => n < 2 ^ 63
  | decimal _ => False
  | identifier name => isName name.toList ∧ name ∉ Expression.keywords
  | property base name => base.Writable ∧ isName name.toList
  | index base key => base.Writable ∧ key.Writable
  | method base name args => base.Writable ∧ isName name.toList ∧ AllWritable args
  | call space name args =>
    (∀ s ∈ space, isName s.toList) ∧ isName name.toList ∧ space.getD name ∉ leadingWords ∧
      AllWritable args
  | unary _ operand => operand.Writable
  | binary _ lhs rhs => lhs.Writable ∧ rhs.Writable
  | conditional condition yes no => condition.Writable ∧ yes.Writable ∧ no.Writable

def AllWritable : List Expr → Prop
  | [] => True
  | e :: rest => e.Writable ∧ AllWritable rest

end

end Expr
end PageCompiler

namespace PageCompiler.Expression

open Text PageCompiler.Expr

-- The tokens with a blank in front of each.
def spaced : List Token → List Char
  | [] => []
  | t :: ts => ' ' :: (t ++ spaced ts)

@[simp] theorem spaced_nil : spaced [] = [] := rfl

@[simp] theorem spaced_cons (t : Token) (ts : List Token) :
    spaced (t :: ts) = ' ' :: (t ++ spaced ts) := rfl

theorem spaced_append (a b : List Token) : spaced (a ++ b) = spaced a ++ spaced b := by
  induction a with
  | nil => rfl
  | cons t a ih => simp [spaced, ih]

theorem length_le_spaced (ts : List Token) : ts.length ≤ (spaced ts).length := by
  induction ts with
  | nil => simp
  | cons t ts ih => simp only [spaced_cons, List.length_cons, List.length_append]; omega

theorem spaced_eq_cons_intercalate {ts : List Token} (h : ts ≠ []) :
    spaced ts = ' ' :: List.intercalate [' '] ts := by
  induction ts with
  | nil => exact absurd rfl h
  | cons t ts ih =>
    cases ts with
    | nil => simp [List.intercalate]
    | cons u us =>
      rw [spaced_cons, ih (List.cons_ne_nil u us)]
      simp [List.intercalate, List.intersperse]

-- A reader skips the blank in front of what it reads.
@[simp] theorem skipGap_blank (s : List Char) : skipGap (' ' :: s) = skipGap s := rfl

theorem skipGap_cons {c : Char} (h : isGap c = false) (s : List Char) :
    skipGap (c :: s) = c :: s := by
  simp [skipGap, h]

theorem stripStart?_head_ne {p c : Char} (h : p ≠ c) (ps cs : List Char) :
    stripStart? (p :: ps) (c :: cs) = none := by
  simp [stripStart?, h]

-- Nothing that follows makes a name longer.
abbrev Ends (rest : List Char) : Prop := continuesName rest = false

theorem ends_spaced (ts : List Token) : Ends (spaced ts) := by cases ts <;> rfl

theorem ends_colon (s : List Char) : Ends (':' :: s) := rfl

theorem isNameChar_of_start {c : Char} (h : isNameStart c) : isNameChar c := by
  simp only [isNameStart, isNameChar, Bool.or_eq_true, Char.isAlphanum] at h ⊢
  tauto

theorem isGap_of_name {c : Char} (h : isNameChar c) : isGap c = false := by
  by_contra hg
  simp only [isGap, Bool.not_eq_false, Bool.or_eq_true, decide_eq_true_eq] at hg
  rcases hg with ((rfl | rfl) | rfl) | rfl <;> exact absurd h (by decide)

theorem isName_cons {n : List Char} (h : isName n) :
    ∃ c cs, n = c :: cs ∧ isNameStart c ∧ cs.all isNameChar := by
  match n, h with
  | c :: cs, h => exact ⟨c, cs, rfl, by simpa [isName] using h⟩

theorem isNameChar_of_mem {n : List Char} (h : isName n) {c : Char} (hc : c ∈ n) :
    isNameChar c := by
  obtain ⟨d, ds, rfl, hd, hds⟩ := isName_cons h
  rcases List.mem_cons.mp hc with rfl | hc
  · exact isNameChar_of_start hd
  · exact List.all_eq_true.mp hds c hc

theorem skipGap_name {n : List Char} (h : isName n) (rest : List Char) :
    skipGap (n ++ rest) = n ++ rest := by
  obtain ⟨c, cs, rfl, hc, -⟩ := isName_cons h
  exact skipGap_cons (isGap_of_name (isNameChar_of_start hc)) _

theorem takeWhile_ends {rest : List Char} (hr : Ends rest) : rest.takeWhile isNameChar = [] := by
  cases rest with
  | nil => rfl
  | cons c rest => exact List.takeWhile_cons_of_neg (Bool.eq_false_iff.mp hr)

theorem dropWhile_ends {rest : List Char} (hr : Ends rest) :
    rest.dropWhile isNameChar = rest := by
  cases rest with
  | nil => rfl
  | cons c rest => exact List.dropWhile_cons_of_neg (Bool.eq_false_iff.mp hr)

theorem nameHere_name {n rest : List Char} (hn : isName n) (hr : Ends rest) :
    nameHere (n ++ rest) = some (n, rest) := by
  obtain ⟨c, cs, rfl, hc, hcs⟩ := isName_cons hn
  have hall : ∀ d ∈ cs, isNameChar d := List.all_eq_true.mp hcs
  simp only [List.cons_append, nameHere, hc, if_true]
  rw [List.takeWhile_append_of_pos hall, List.dropWhile_append_of_pos hall,
    takeWhile_ends hr, dropWhile_ends hr, List.append_nil]

-- Of two words of name characters, one that starts the other is the same or is lengthened by it.
theorem stripStart?_name {w n rest : List Char} (hw : ∀ c ∈ w, isNameChar c)
    (hn : ∀ c ∈ n, isNameChar c) (hr : Ends rest) :
    stripStart? w (n ++ rest) = none ∨ (w = n ∧ stripStart? w (n ++ rest) = some rest) ∨
      (w ≠ n ∧ ∃ more, stripStart? w (n ++ rest) = some more ∧ continuesName more) := by
  induction w generalizing n with
  | nil =>
    cases n with
    | nil => exact .inr (.inl ⟨rfl, rfl⟩)
    | cons c n =>
      exact .inr (.inr ⟨by simp, c :: n ++ rest, rfl, hn c (List.mem_cons_self ..)⟩)
  | cons p w ih =>
    cases n with
    | nil =>
      left
      cases rest with
      | nil => rfl
      | cons c rest =>
        apply stripStart?_head_ne
        rintro rfl
        exact absurd (hw p (List.mem_cons_self ..)) (Bool.eq_false_iff.mp hr)
    | cons c n =>
      by_cases hpc : p = c
      · subst hpc
        simpa [stripStart?] using ih (fun d hd => hw d (List.mem_cons_of_mem _ hd))
          (fun d hd => hn d (List.mem_cons_of_mem _ hd))
      · exact .inl (stripStart?_head_ne hpc ..)

theorem word_name {w : String} {n rest : List Char} (hw : w.toList.all isNameChar)
    (hn : isName n) (hr : Ends rest) :
    word w (n ++ rest) = if w.toList = n then some rest else none := by
  have h := stripStart?_name (List.all_eq_true.mp hw) (fun _ => isNameChar_of_mem hn) hr
  unfold word
  rw [skipGap_name hn]
  rcases h with h | ⟨rfl, h⟩ | ⟨hne, more, h, hc⟩
  · rw [h]
    have hne : w.toList ≠ n := by
      rintro rfl
      rw [stripStart?_append] at h
      cases h
    simp [hne]
  · simp only [h, if_true]
    simp [show continuesName rest = false from hr]
  · simp [h, hc, hne]

theorem word_blank (w : String) (s : List Char) : word w (' ' :: s) = word w s := rfl

theorem symbol_blank (t : String) (s : List Char) : symbol t (' ' :: s) = symbol t s := rfl

theorem ofDigits_toDigits (n : Nat) : Number.ofDigits (Nat.toDigits 10 n) = n := by
  have h := Nat.ofDigitChars_ten_toDigits (n := n)
  rw [Nat.ofDigitChars_eq_foldl] at h
  simpa only [Number.ofDigits, Number.digitValue, Nat.mul_comm] using h

theorem digitRun_append {ds rest : List Char} (hd : ∀ c ∈ ds, c.isDigit)
    (hr : rest.takeWhile Char.isDigit = []) : digitRun (ds ++ rest) = (ds, rest) := by
  have hdrop : rest.dropWhile Char.isDigit = rest := by
    have h := List.takeWhile_append_dropWhile (p := Char.isDigit) (l := rest)
    rwa [hr, List.nil_append] at h
  rw [digitRun, List.span_eq_takeWhile_dropWhile, List.takeWhile_append_of_pos hd,
    List.dropWhile_append_of_pos hd, hr, hdrop, List.append_nil]

theorem takeWhile_isDigit_spaced (ts : List Token) :
    (spaced ts).takeWhile Char.isDigit = [] := by
  cases ts <;> rfl

theorem digitRun_toDigits (n : Nat) (ts : List Token) :
    digitRun (Nat.toDigits 10 n ++ spaced ts) = (Nat.toDigits 10 n, spaced ts) :=
  digitRun_append (fun _ hc => Nat.isDigit_of_mem_toDigits (by decide) (by decide) hc)
    (takeWhile_isDigit_spaced ts)

-- Digits with nothing but a blank behind them are no decimal literal.
theorem literal_integer {n : Nat} (h : n < 2 ^ 63) (ts : List Token) :
    literal (Nat.toDigits 10 n ++ spaced ts) = some (.ok (.integer n), spaced ts) := by
  obtain ⟨d, ds, hds⟩ := List.exists_cons_of_ne_nil (Nat.toDigits_ne_nil (n := n) (b := 10))
  have hrun := digitRun_toDigits n ts
  have hvalue := ofDigits_toDigits n
  rw [hds] at hrun hvalue
  have hdecimal : decimalLiteral (Nat.toDigits 10 n ++ spaced ts) = none := by
    rw [hds, decimalLiteral, hrun]
    cases ts <;> rfl
  have hinteger : integerLiteral (Nat.toDigits 10 n ++ spaced ts) =
      some (.ok (.integer n), spaced ts) := by
    rw [hds, integerLiteral, hrun]
    simp only [hvalue, integerLimit]
    rw [if_pos (by omega)]
  simp [literal, hdecimal, hinteger]

theorem quotedText_escaped (s rest : List Char) :
    quotedText '"' (escapedText s ++ '"' :: rest) = some (s, rest) := by
  induction s with
  | nil => simp [escapedText, quotedText.eq_def]
  | cons c s ih =>
    rw [escapedText]
    split
    · rw [List.cons_append, List.cons_append, quotedText.eq_def]
      simp [ih]
    · rename_i hc
      simp only [Bool.or_eq_true, decide_eq_true_eq, not_or] at hc
      rw [List.cons_append, quotedText.eq_def]
      simp [hc.1, hc.2, ih]

theorem literal_text (s : String) (rest : List Char) :
    literal (textToken s ++ rest) = some (.ok (.text s), rest) := by
  have ht : textLiteral (textToken s ++ rest) = some (.text s, rest) := by
    simp [textToken, textLiteral, quotedText_escaped]
  have hd : decimalLiteral (textToken s ++ rest) = none := rfl
  have hi : integerLiteral (textToken s ++ rest) = none := rfl
  simp [literal, ht, hd, hi]

theorem digitRun_of_head {c : Char} (h : c.isDigit = false) (s : List Char) :
    digitRun (c :: s) = ([], c :: s) := by
  simp [digitRun, List.span_eq_takeWhile_dropWhile, h]

-- A text that starts with a character no literal but a word starts with.
theorem literal_eq_wordLiteral {c : Char} (hd : c.isDigit = false) (hp : c ≠ '.') (hq : c ≠ '"')
    (ha : c ≠ '\'') (s : List Char) :
    literal (c :: s) = (wordLiteral (c :: s)).map fun r => (.ok r.1, r.2) := by
  have hdecimal : decimalLiteral (c :: s) = none := by
    rw [decimalLiteral, digitRun_of_head hd]
    split <;> simp_all
  have hinteger : integerLiteral (c :: s) = none := by rw [integerLiteral, digitRun_of_head hd]
  have htext : textLiteral (c :: s) = none := by simp [textLiteral, hq, ha]
  simp [literal, hdecimal, hinteger, htext]

theorem literal_name {n rest : List Char} (hn : isName n) (hr : Ends rest)
    (h : "true".toList ≠ n ∧ "false".toList ≠ n ∧ "null".toList ≠ n) :
    literal (n ++ rest) = none := by
  have hword : wordLiteral (n ++ rest) = none := by
    rw [wordLiteral, word_name (by decide) hn hr, if_neg h.1, word_name (by decide) hn hr,
      if_neg h.2.1, word_name (by decide) hn hr, if_neg h.2.2]
    rfl
  obtain ⟨c, cs, rfl, hc, -⟩ := isName_cons hn
  have hne : ∀ d : Char, isNameStart d = false → c ≠ d := by
    rintro d hd rfl
    exact Bool.eq_false_iff.mp hd hc
  have hdigit : c.isDigit = false := by
    simp only [isNameStart, Bool.or_eq_true, decide_eq_true_eq] at hc
    rcases hc with (hc | rfl) | rfl
    · exact not_isDigit_of_isAlpha hc
    all_goals decide
  rw [List.cons_append, literal_eq_wordLiteral hdigit (hne _ (by decide)) (hne _ (by decide))
    (hne _ (by decide)), ← List.cons_append, hword]
  rfl

theorem symbol_head_ne {t : String} {p c : Char} {ps : List Char} (ht : t.toList = p :: ps)
    (hg : isGap c = false) (h : p ≠ c) (s : List Char) : symbol t (c :: s) = none := by
  rw [symbol, ht, skipGap_cons hg, stripStart?_head_ne h]

theorem unaryOperator_head {c : Char} (hg : isGap c = false)
    (h : '-' ≠ c ∧ '!' ≠ c ∧ 'n' ≠ c ∧ 'e' ≠ c) (s : List Char) :
    unaryOperator (' ' :: c :: s) = none := by
  have hword : ∀ (w : String) (p : Char) (ps : List Char), w.toList = p :: ps → p ≠ c →
      word w (c :: s) = none := by
    intro w p ps hw hp
    rw [word, hw, skipGap_cons hg, stripStart?_head_ne hp]
  rw [unaryOperator, symbol_blank, symbol_head_ne rfl hg h.1, symbol_blank,
    symbol_head_ne rfl hg h.2.1, word_blank, hword _ _ _ rfl h.2.2.1, word_blank,
    hword _ _ _ rfl h.2.2.2]
  rfl

theorem unaryOperator_name {n rest : List Char} (hn : isName n) (hr : Ends rest)
    (h : "not".toList ≠ n ∧ "empty".toList ≠ n) : unaryOperator (' ' :: (n ++ rest)) = none := by
  have hsign : ∀ (t : String) (p : Char), t.toList = [p] → isNameStart p = false →
      symbol t (n ++ rest) = none := by
    intro t p ht hp
    obtain ⟨c, cs, rfl, hc, -⟩ := isName_cons hn
    apply symbol_head_ne ht (isGap_of_name (isNameChar_of_start hc))
    rintro rfl
    exact Bool.eq_false_iff.mp hp hc
  rw [unaryOperator, symbol_blank, hsign "-" '-' rfl (by decide), symbol_blank,
    hsign "!" '!' rfl (by decide), word_blank, word_name (by decide) hn hr, if_neg h.1,
    word_blank, word_name (by decide) hn hr, if_neg h.2]
  rfl

theorem qualifiedName_plain {name : String} (hn : isName name.toList) (ts : List Token) :
    qualifiedName (' ' :: (name.toList ++ spaced ts)) = some ((none, name), spaced ts) := by
  rw [qualifiedName, skipGap_blank, skipGap_name hn, nameHere_name hn (ends_spaced ts)]
  cases ts <;> simp

theorem qualifiedName_spaced {space name : String} (hs : isName space.toList)
    (hn : isName name.toList) (ts : List Token) :
    qualifiedName (' ' :: (space.toList ++ ':' :: (name.toList ++ spaced ts))) =
      some ((some space, name), spaced ts) := by
  rw [qualifiedName, skipGap_blank, skipGap_name hs, nameHere_name hs (ends_colon _)]
  simp only [nameHere_name hn (ends_spaced ts), String.ofList_toList]

end PageCompiler.Expression
