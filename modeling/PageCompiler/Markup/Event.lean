import PageCompiler.Markup.Entity
import PageCompiler.Text.Letters
import PageCompiler.Text.Size

-- Reading goes on up to the first thing that is no markup; the sequence then ends there. What an
-- opening tag says, its name and its attributes, is read when the tag is known.
namespace PageCompiler.Markup

open Text

inductive Event where
  -- A tag that opens an element, with all that stands between the angle brackets.
  | opening (inside : List Char)
  -- A tag that is a whole element, without its final slash.
  | empty (inside : List Char)
  | closing (name : List Char)
  -- Text with its entities.
  | text (raw : List Char)
  | cdata (text : List Char)
  | comment (text : List Char)
  -- Declarations, instructions and document types.
  | other
  deriving DecidableEq, Repr

-- An event with the bytes it covers.
structure Located where
  event : Event
  start : Nat
  stop : Nat
  deriving DecidableEq, Repr

-- The events of a document, and the place at which it breaks off unless it is read to the end.
structure Document where
  events : List Located
  broken : Option Nat
  -- The byte behind the last event.
  stop : Nat
  deriving DecidableEq, Repr

-- Blanks inside of tags.
def isSpace (c : Char) : Bool := c = ' ' || c = '\t' || c = '\r' || c = '\n'

-- The inside of a tag up to the first closing bracket outside quotes, and what follows it.
def cutTag? (quote : Option Char) : List Char → Option (List Char × List Char)
  | [] => none
  | c :: cs =>
    match quote with
    | some q => (cutTag? (if c = q then none else quote) cs).map fun cut => (c :: cut.1, cut.2)
    | none =>
      if c = '>' then some ([], cs)
      else
        (cutTag? (if c = '\'' || c = '"' then some c else none) cs).map fun cut =>
          (c :: cut.1, cut.2)

theorem length_cutTag? {quote : Option Char} {s inside rest : List Char}
    (h : cutTag? quote s = some (inside, rest)) : rest.length < s.length := by
  induction s generalizing quote inside with
  | nil => simp [cutTag?] at h
  | cons c cs ih =>
    unfold cutTag? at h
    split at h
    · simp only [Option.map_eq_some_iff, Prod.mk.injEq] at h
      obtain ⟨⟨a, b⟩, hc, _, rfl⟩ := h
      exact Nat.lt_succ_of_lt (ih hc)
    · split at h
      · simp only [Option.some.injEq, Prod.mk.injEq] at h
        simp [h.2]
      · simp only [Option.map_eq_some_iff, Prod.mk.injEq] at h
        obtain ⟨⟨a, b⟩, hc, _, rfl⟩ := h
        exact Nat.lt_succ_of_lt (ih hc)

-- The text in front of the closing bracket that balances the brackets in between.
def cutBalanced? (depth : Nat) : List Char → Option (List Char × List Char)
  | [] => none
  | c :: cs =>
    if c = '>' && depth = 0 then some ([], cs)
    else
      let depth := if c = '<' then depth + 1 else if c = '>' then depth - 1 else depth
      (cutBalanced? depth cs).map fun cut => (c :: cut.1, cut.2)

theorem length_cutBalanced? {depth : Nat} {s inside rest : List Char}
    (h : cutBalanced? depth s = some (inside, rest)) : rest.length < s.length := by
  induction s generalizing depth inside with
  | nil => simp [cutBalanced?] at h
  | cons c cs ih =>
    unfold cutBalanced? at h
    split at h
    · simp only [Option.some.injEq, Prod.mk.injEq] at h
      simp [h.2]
    · simp only [Option.map_eq_some_iff, Prod.mk.injEq] at h
      obtain ⟨⟨a, b⟩, hc, _, rfl⟩ := h
      exact Nat.lt_succ_of_lt (ih hc)

-- What stands behind an opening bracket: the event and the text behind it. The failure says how
-- many bytes behind the bracket the document breaks off; nothing means at the bracket itself.
structure Piece where
  event : Event
  rest : List Char

-- The name in a closing tag goes up to its last character that is no blank.
def closingName (inside : List Char) : List Char :=
  match inside.reverse.dropWhile isSpace with
  | [] => inside
  | kept => kept.reverse

-- Whether the text behind `!` opens a document type, in letters of either case.
def isDocumentType (inside : List Char) : Bool :=
  sameLetters (String.ofList (inside.take 7)) "DOCTYPE"

-- A comment ends at the first closing bracket behind two dashes that are not those that open it.
def cutComment? (s : List Char) : Option (List Char × List Char) := do
  let s ← stripStart? "--".toList s
  cutAt? "-->".toList s

-- One piece of markup, from behind its opening bracket.
def piece? : List Char → Except (Option Nat) Piece
  | [] => .error none
  | '!' :: s =>
    match s with
    | '-' :: _ =>
      match cutComment? s with
      | some (text, rest) => .ok ⟨.comment text, rest⟩
      | none => .error none
    | '[' :: _ =>
      match (stripStart? "[CDATA[".toList s).bind (cutAt? "]]>".toList) with
      | some (text, rest) => .ok ⟨.cdata text, rest⟩
      | none => .error none
    | c :: _ =>
      if c = 'D' || c = 'd' then
        match cutBalanced? 0 s with
        | none => .error none
        | some (inside, rest) =>
          if !isDocumentType inside then .error none
          else if (inside.drop 7).all isSpace then .error (some (1 + byteSize inside))
          else .ok ⟨.other, rest⟩
      else .error none
    | [] => .error none
  | '/' :: s =>
    match cutTag? none s with
    | some (inside, rest) => .ok ⟨.closing (closingName inside), rest⟩
    | none => .error none
  | '?' :: s =>
    match s with
    | '>' :: _ => .error none
    | _ =>
      match cutAt? "?>".toList s with
      | some (_, rest) => .ok ⟨.other, rest⟩
      | none => .error none
  | s =>
    match cutTag? none s with
    | some (inside, rest) =>
      match stripEnd? ['/'] inside with
      | some inside => .ok ⟨.empty inside, rest⟩
      | none => .ok ⟨.opening inside, rest⟩
    | none => .error none

theorem length_cutComment? {s text rest : List Char}
    (h : cutComment? s = some (text, rest)) : rest.length ≤ s.length := by
  simp only [cutComment?, Option.bind_eq_bind, Option.bind_eq_some_iff] at h
  obtain ⟨t, ht, hc⟩ := h
  have h1 := congrArg List.length (eq_of_stripStart? ht)
  have h2 := length_cutAt? hc
  simp at h1
  omega

theorem length_piece? {s : List Char} {p : Piece} (h : piece? s = .ok p) :
    p.rest.length < s.length := by
  unfold piece? at h
  split at h
  · simp at h
  · split at h
    · split at h
      · rename_i hc
        have := length_cutComment? hc
        simp only [Except.ok.injEq] at h
        subst h
        simp only [List.length_cons] at *
        omega
      · simp at h
    · split at h
      · rename_i hc
        simp only [Option.bind_eq_some_iff] at hc
        obtain ⟨t, ht, hc⟩ := hc
        have h1 := congrArg List.length (eq_of_stripStart? ht)
        have h2 := length_cutAt? hc
        simp only [Except.ok.injEq] at h
        subst h
        simp at h1 ⊢
        omega
      · simp at h
    · split at h
      · split at h
        · simp at h
        · rename_i hc
          have := length_cutBalanced? hc
          split at h
          · simp at h
          · split at h
            · simp at h
            · simp only [Except.ok.injEq] at h
              subst h
              simp only [List.length_cons] at *
              omega
      · simp at h
    · simp at h
  · split at h
    · rename_i hc
      have := length_cutTag? hc
      simp only [Except.ok.injEq] at h
      subst h
      simp; omega
    · simp at h
  · split at h
    · simp at h
    · split at h
      · rename_i hc
        have := length_cutAt? hc
        simp only [Except.ok.injEq] at h
        subst h
        simp; omega
      · simp at h
  · split at h
    · rename_i hc
      have := length_cutTag? hc
      split at h <;>
        (simp only [Except.ok.injEq] at h; subst h; exact this)
    · simp at h

-- How many elements are open behind an event; a closing tag needs one.
def Event.depth? (depth : Nat) : Event → Option Nat
  | opening _ => some (depth + 1)
  | closing _ => if depth = 0 then none else some (depth - 1)
  | _ => some depth

def Document.cons (e : Located) (d : Document) : Document := { d with events := e :: d.events }

-- Reads on at the byte `offset`, with `depth` elements open.
def readFrom (depth offset : Nat) (s : List Char) : Document :=
  match s with
  | [] => ⟨[], none, offset⟩
  | '<' :: rest =>
    match h : piece? rest with
    | .error place =>
      ⟨[], some ((place.map fun n => offset + 1 + n).getD offset), offset⟩
    | .ok p =>
      match p.event.depth? depth with
      | none => ⟨[], some offset, offset⟩
      | some depth =>
        have := length_piece? h
        let stop := offset + (byteSize ('<' :: rest) - byteSize p.rest)
        (readFrom depth stop p.rest).cons ⟨p.event, offset, stop⟩
  | c :: cs =>
    let run := c :: cs.takeWhile (· != '<')
    have : (cs.dropWhile (· != '<')).length ≤ cs.length :=
      (List.dropWhile_sublist _).length_le
    let stop := offset + byteSize run
    (readFrom depth stop (cs.dropWhile (· != '<'))).cons ⟨.text run, offset, stop⟩
termination_by s.length

-- A byte order mark in front of a document is passed over without being counted.
def read (s : List Char) : Document :=
  match s with
  | c :: rest => readFrom 0 0 (if c.toNat = 0xFEFF then rest else c :: rest)
  | [] => readFrom 0 0 []

end PageCompiler.Markup

namespace PageCompiler.Markup.StartTag

open Text

def name (inside : List Char) : List Char := inside.takeWhile fun c => !isSpace c

-- An attribute as it is written: its name, and its value with entities.
abbrev Written := List Char × List Char

-- The first attribute of a text that starts with its name, and the text behind it. The name goes
-- up to an equals sign or a blank, but has at least one character.
def first? : List Char → Option (Written × List Char)
  | [] => none
  | c :: cs =>
    let inName (c : Char) := c != '=' && !isSpace c
    match (cs.dropWhile inName).dropWhile isSpace with
    | '=' :: rest =>
      match rest.dropWhile isSpace with
      | quote :: rest =>
        if quote = '"' || quote = '\'' then
          (splitOnce? quote rest).map fun (value, rest) =>
            ((c :: cs.takeWhile inName, value), rest)
        else none
      | [] => none
    | _ => none

-- Reads one attribute after the other; each uses up some of the text, which has no more of them
-- than it has characters.
def readFrom : Nat → List Char → Option (List Written)
  | 0, _ => some []
  | fuel + 1, s =>
    match s.dropWhile isSpace with
    | [] => some []
    | s => do
      let (a, rest) ← first? s
      return a :: (← readFrom fuel rest)

def written? (inside : List Char) : Option (List Written) :=
  readFrom (inside.length + 1) (inside.dropWhile fun c => !isSpace c)

def distinct : List Written → Bool
  | [] => true
  | a :: rest => rest.all (fun b => b.1 != a.1) && distinct rest

-- The names and values of all attributes; nothing when one is malformed or given twice.
def attributes? (inside : List Char) : Option (List (String × String)) := do
  let written ← written? inside
  if distinct written then
    written.mapM fun (name, raw) => do
      return (String.ofList name, String.ofList (← unescape? raw))
  else none

end PageCompiler.Markup.StartTag
