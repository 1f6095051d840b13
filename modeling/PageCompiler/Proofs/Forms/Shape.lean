import PageCompiler.Page.Outline
import PageCompiler.Proofs.Forms.Template
import PageCompiler.Proofs.Expression.SourceText

-- The forms differ in blank text alone: one of them keeps it where the other drops it. An outline
-- does not show the difference, because blank text never stands behind other text of the same
-- depth.
namespace PageCompiler

open Text PageCompiler.Tree

-- The nodes of a body from the first on.
inductive Shape where
  | nil
  | text (value : String) (rest : Shape)
  | insert (dialect : Dialect) (source : String) (rest : Shape)
  | script (kind : ScriptKind) (code : String) (rest : Shape)
  -- The name is the qualified one.
  | action (name : String) (attrs : List (String × String)) (body rest : Shape)

namespace Shape

def append : Shape → Shape → Shape
  | nil, more => more
  | text value rest, more => text value (rest.append more)
  | insert dialect source rest, more => insert dialect source (rest.append more)
  | script kind code rest, more => script kind code (rest.append more)
  | action name attrs body rest, more => action name attrs body (rest.append more)

@[simp] theorem nil_append (s : Shape) : nil.append s = s := rfl

@[simp] theorem append_nil (s : Shape) : s.append nil = s := by
  induction s with
  | nil => rfl
  | text value rest ih => rw [append, ih]
  | insert dialect source rest ih => rw [append, ih]
  | script kind code rest ih => rw [append, ih]
  | action name attrs body rest _ ih => rw [append, ih]

theorem append_assoc (a b c : Shape) : (a.append b).append c = a.append (b.append c) := by
  induction a with
  | nil => rfl
  | text value rest ih => simp only [append, ih]
  | insert dialect source rest ih => simp only [append, ih]
  | script kind code rest ih => simp only [append, ih]
  | action name attrs body rest _ ih => simp only [append, ih]

-- The kind of an attribute's value, when both dialects are recognised.
def valueKind (value : String) : String :=
  match Composite.parse {} value.toList with
  | .ok composite => if composite.dialects = [] then "literal" else "expression"
  | .error _ => "literal"

def attributeLabel (a : String × String) : String :=
  " " ++ ((cutString? ':' a.1).map Prod.snd).getD a.1 ++ ":" ++ valueKind a.2

def actionLabel (name : String) (attrs : List (String × String)) : String :=
  "CustomAction" ++ (" <" ++ name ++ ">") ++ String.join (attrs.map attributeLabel)

def lines (depth : Nat) : Shape → List OutlineLine
  | nil => []
  | text value rest => .text depth value :: rest.lines depth
  | insert dialect source rest =>
    .node depth ("ElInsert" ++ (" " ++ dialect.enclose (trimmed source))) :: rest.lines depth
  | script kind code rest =>
    .node depth (kind.label ++ " " ++ Quoted.encode (trimmed code)) :: rest.lines depth
  | action name attrs body rest =>
    .node depth (actionLabel name attrs) :: (body.lines (depth + 1) ++ rest.lines depth)

theorem lines_append (depth : Nat) (a b : Shape) :
    (a.append b).lines depth = a.lines depth ++ b.lines depth := by
  induction a with
  | nil => rfl
  | text value rest ih => simp [append, lines, ih]
  | insert dialect source rest ih => simp [append, lines, ih]
  | script kind code rest ih => simp [append, lines, ih]
  | action name attrs body rest _ ih => simp [append, lines, ih]

end Shape

namespace Template

-- The nodes of a value's parts.
def partsShape : List Part → Shape
  | [] => .nil
  | .text value :: parts => .text value (partsShape parts)
  | .expr dialect source _ _ :: parts => .insert dialect source (partsShape parts)

-- The nodes of a run of text and expressions. Blanks are kept or dropped.
def runShape (keep : Bool) (run : List Char) : Shape :=
  if allBlank run && !keep then .nil
  else
    match Composite.parse {} run with
    | .ok composite => partsShape composite.parts
    | .error _ => .nil

-- The nodes of a template that stands behind a run of text.
def shape (keep : Bool) (space run : List Char) : Template → Shape
  | nil => runShape keep run
  | text value rest => rest.shape keep space (run ++ value)
  | insert source rest => rest.shape keep space (run ++ insertText source)
  | script kind code rest =>
    (runShape keep run).append (.script kind (String.ofList code) (rest.shape keep space []))
  | empty name attrs rest =>
    (runShape keep run).append
      (.action (String.ofList (qualified space name)) (attributePairs attrs) .nil
        (rest.shape keep space []))
  | element name attrs body rest =>
    (runShape keep run).append
      (.action (String.ofList (qualified space name)) (attributePairs attrs)
        (body.shape keep space []) (rest.shape keep space []))

theorem isBlank_delimits {c : Char} (h : isBlank c) : c ≠ '\\' ∧ c ≠ '$' ∧ c ≠ '#' := by
  refine ⟨?_, ?_, ?_⟩ <;> rintro rfl <;> revert h <;> decide

-- Text without delimiters and backslashes is one part.
theorem scan_allBlank {run : List Char} (h : ∀ c ∈ run, isBlank c) (offset : Nat)
    (text : List Char) :
    Composite.scan {} offset text run = .ok (Composite.textPart (run.reverse ++ text)) := by
  induction run generalizing offset text with
  | nil => exact Composite.scan_nil
  | cons c run ih =>
    obtain ⟨hback, hdollar, hhash⟩ := isBlank_delimits (h c (List.mem_cons_self ..))
    have hescaped : Composite.escaped? (c :: run) = none :=
      Composite.escaped?_of_delimiter? fun hc => absurd hc hback
    have hdelimiter : Composite.delimiter? (c :: run) = none := by
      unfold Composite.delimiter?
      split
      · rename_i heq
        cases heq
        simp [Dialect.ofSign?, hdollar, hhash]
      · rfl
    have hrun := ih fun d hd => h d (List.mem_cons_of_mem _ hd)
    rw [Composite.scan_plain hescaped hdelimiter, hrun]
    simp

-- A blank run gives one blank text at most, which is in the outline of one form only.
theorem runShape_blank {run : List Char} (h : allBlank run) :
    runShape false run = .nil ∧
      (runShape true run = .nil ∨ runShape true run = .text (String.ofList run) .nil) := by
  have hall : ∀ c ∈ run, isBlank c := List.all_eq_true.mp h
  have hparse : Composite.parse {} run = .ok ⟨Composite.textPart run.reverse⟩ := by
    rw [Composite.parse, scan_allBlank hall, List.append_nil]
    rfl
  refine ⟨by simp [runShape, h], ?_⟩
  rw [runShape, if_neg (by simp), hparse]
  by_cases hr : run = []
  · subst hr
    exact .inl rfl
  · obtain ⟨c, cs, hc⟩ := List.exists_cons_of_ne_nil (List.reverse_ne_nil_iff.mpr hr)
    have hrun : run = (c :: cs).reverse := by rw [← hc, List.reverse_reverse]
    right
    rw [hc, hrun]
    rfl

theorem runShape_nil (keep : Bool) : runShape keep [] = .nil := by
  have hparse : Composite.parse {} [] = .ok ⟨[]⟩ := by
    rw [Composite.parse, Composite.scan_nil]
    rfl
  rw [runShape, hparse]
  split <;> rfl

theorem runShape_of_not_blank {run : List Char} (h : allBlank run = false) (keep : Bool) :
    runShape keep run = runShape true run := by simp [runShape, h]

end Template

namespace Tree

def OutlineLine.depth : OutlineLine → Nat
  | .node depth _ | .text depth _ => depth

-- A text of this depth would not be joined with the line before it.
def Settled (depth : Nat) (before : List OutlineLine) : Prop :=
  ∀ d value rest, before = .text d value :: rest → depth < d

theorem settled_node (depth d : Nat) (label : String) (before : List OutlineLine) :
    Settled depth (addLine before (.node d label)) := by
  rintro d' value rest ⟨⟩

theorem addLine_blank {depth : Nat} {before : List OutlineLine} (h : Settled depth before)
    {value : String} (hb : blank value) : addLine before (.text depth value) = before := by
  unfold addLine
  split
  · cases ‹_ = _›
  · rename_i heq
    cases heq
    split
    · rename_i d earlier rest
      have hlt := h d earlier rest rfl
      rw [if_neg (by omega), if_pos hb]
    · rw [if_pos hb]

-- Lines of a greater depth leave a text of this depth on its own.
theorem Settled.addLine {depth : Nat} {before : List OutlineLine} (h : Settled depth before)
    {line : OutlineLine} (hl : depth < line.depth) : Settled depth (addLine before line) := by
  cases line with
  | node d label => exact settled_node _ _ _ _
  | text d value =>
    have hnew : Settled depth (.text d value :: before) := by
      rintro d' value' rest ⟨⟩
      exact hl
    unfold Tree.addLine
    dsimp only
    split
    · rename_i d' earlier rest
      split_ifs with hd hb
      · rintro d'' value'' rest'' ⟨⟩
        exact h d' earlier rest rfl
      · exact h
      · exact hnew
    · split_ifs with hb
      · exact h
      · exact hnew

theorem Settled.foldl {depth : Nat} {before lines : List OutlineLine} (h : Settled depth before)
    (hl : ∀ line ∈ lines, depth < line.depth) :
    Settled depth (lines.foldl Tree.addLine before) := by
  induction lines generalizing before with
  | nil => exact h
  | cons line lines ih =>
    rw [List.foldl_cons]
    exact ih (h.addLine (hl line (List.mem_cons_self ..)))
      fun l hm => hl l (List.mem_cons_of_mem _ hm)

end Tree

theorem Shape.le_depth_of_mem_lines {depth : Nat} {s : Shape} {line : OutlineLine}
    (h : line ∈ s.lines depth) : depth ≤ line.depth := by
  induction s generalizing depth with
  | nil => cases h
  | text value rest ih =>
    rcases List.mem_cons.mp h with rfl | h
    · exact Nat.le_refl _
    · exact ih h
  | insert dialect source rest ih =>
    rcases List.mem_cons.mp h with rfl | h
    · exact Nat.le_refl _
    · exact ih h
  | script kind code rest ih =>
    rcases List.mem_cons.mp h with rfl | h
    · exact Nat.le_refl _
    · exact ih h
  | action name attrs body rest ihb ih =>
    rcases List.mem_cons.mp h with rfl | h
    · exact Nat.le_refl _
    · rcases List.mem_append.mp h with h | h
      · exact Nat.le_of_succ_le (ihb h)
      · exact ih h

namespace Template

-- The same lines come out whether blank runs are kept or dropped.
theorem foldl_runShape {depth : Nat} {before : List OutlineLine} (h : Settled depth before)
    (run : List Char) :
    ((runShape true run).lines depth).foldl addLine before =
      ((runShape false run).lines depth).foldl addLine before := by
  by_cases hb : allBlank run
  · obtain ⟨hdrop, hkeep⟩ := runShape_blank hb
    rw [hdrop]
    rcases hkeep with hkeep | hkeep
    · rw [hkeep]
    · rw [hkeep]
      exact addLine_blank h (by simpa [blank] using hb)
  · rw [runShape_of_not_blank (Bool.eq_false_iff.mpr hb) false]

theorem foldl_shape {depth : Nat} {before : List OutlineLine} (h : Settled depth before)
    (space run : List Char) (template : Template) :
    ((template.shape true space run).lines depth).foldl addLine before =
      ((template.shape false space run).lines depth).foldl addLine before := by
  induction template generalizing depth before run with
  | nil => exact foldl_runShape h run
  | text value rest ih => exact ih h _
  | insert source rest ih => exact ih h _
  | script kind code rest ih =>
    simp only [shape, Shape.lines_append, Shape.lines, List.foldl_append, List.foldl_cons]
    rw [foldl_runShape h run]
    exact ih (settled_node _ _ _ _) _
  | empty name attrs rest ih =>
    simp only [shape, Shape.lines_append, Shape.lines, List.foldl_append, List.foldl_cons]
    rw [foldl_runShape h run]
    exact ih (settled_node _ _ _ _) _
  | element name attrs body rest ihb ih =>
    simp only [shape, Shape.lines_append, Shape.lines, List.foldl_append, List.foldl_cons]
    rw [foldl_runShape h run, ihb (settled_node _ _ _ _)]
    -- The lines of the body are deeper than what follows the action.
    exact ih (Settled.foldl (settled_node _ _ _ _) fun line hl => Shape.le_depth_of_mem_lines hl) _

end Template
end PageCompiler
