import PageCompiler.Page.View
import PageCompiler.Proofs.Expression.Tokens
import PageCompiler.Proofs.Page.Preorder

namespace PageCompiler

open Text

namespace Page

def sectionEnd : List Char := "]]>".toList

-- A character data section as it is written.
def sectionText (part : List Char) : List Char :=
  '<' :: ("![CDATA[".toList ++ part ++ sectionEnd)

theorem toList_cdata (text : String) :
    (cdata text).toList = (cdataParts text.length text.toList).flatMap sectionText := by
  rw [cdata, String.toList_join, List.flatMap_map]
  congr 1
  funext part
  simp [sectionText, sectionEnd]

theorem flatten_cdataParts (fuel : Nat) (text : List Char) :
    (cdataParts fuel text).flatten = text := by
  fun_induction cdataParts fuel text with
  | case1 => simp
  | case2 fuel text before after hcut ih =>
    rw [List.flatten_cons, ih, eq_of_cutAt? hcut]
    simp
  | case3 => simp

-- A section that is closed inside of a section end holds none.
theorem section_cut {text before after : List Char}
    (h : cutAt? sectionEnd text = some (before, after)) :
    ¬ sectionEnd <:+: before ++ "]]".toList :=
  @not_infix_before_cut "]]".toList _ _ _ _ h

theorem section_of_mem_cdataParts {fuel : Nat} {text part : List Char} (hf : text.length ≤ fuel)
    (h : part ∈ cdataParts fuel text) : ¬ sectionEnd <:+: part := by
  fun_induction cdataParts fuel text with
  | case1 text =>
    have hnil : text = [] := List.length_eq_zero_iff.mp (by omega)
    rw [List.mem_singleton.mp h, hnil]
    decide
  | case2 fuel text before after hcut ih =>
    rcases List.mem_cons.mp h with rfl | h
    · exact section_cut hcut
    · refine ih ?_ h
      have hlength := congrArg List.length (eq_of_cutAt? hcut)
      simp at hlength ⊢
      omega
  | case3 fuel text hcut =>
    rw [List.mem_singleton.mp h]
    exact not_infix_of_cutAt? hcut

-- A text without a section end is cut at the end that is written behind it.
theorem cutAt?_section {part : List Char} (h : ¬ sectionEnd <:+: part) (rest : List Char) :
    cutAt? sectionEnd (part ++ sectionEnd ++ rest) = some (part, rest) := by
  cases hcut : cutAt? sectionEnd (part ++ sectionEnd ++ rest) with
  | none => exact absurd (List.infix_append ..) (not_infix_of_cutAt? hcut)
  | some cut =>
    obtain ⟨before, after⟩ := cut
    have hle := length_le_of_cutAt? hcut (List.prefix_append ..)
    have heq := eq_of_cutAt? hcut
    have hpart : part <+: before ++ sectionEnd ++ after := by
      rw [← heq, List.append_assoc]
      exact List.prefix_append ..
    have hbefore : before <+: before ++ sectionEnd ++ after := by
      rw [List.append_assoc]
      exact List.prefix_append ..
    obtain ⟨gap, rfl⟩ := List.prefix_of_prefix_length_le hbefore hpart hle
    -- What is left of the text in front of its own end starts with an end as well.
    rw [List.append_assoc, List.append_assoc, List.append_assoc, List.append_cancel_left_eq] at heq
    obtain _ | ⟨c, _ | ⟨d, _ | ⟨e, gap⟩⟩⟩ := gap
    · simpa [sectionEnd] using heq.symm
    · simp [sectionEnd] at heq
    · simp [sectionEnd] at heq
    · have hstart : sectionEnd <+: c :: d :: e :: gap := by
        simp [sectionEnd] at heq
        simp [sectionEnd, heq]
      exact absurd (hstart.isInfix.trans (List.suffix_append ..).isInfix) h

theorem length_behind_section {s part rest : List Char}
    (h : (stripStart? "<![CDATA[".toList s).bind (cutAt? sectionEnd) = some (part, rest)) :
    rest.length < s.length := by
  obtain ⟨inside, hstart, hcut⟩ := Option.bind_eq_some_iff.mp h
  rw [eq_of_stripStart? hstart, List.length_append]
  have hle := length_cutAt? hcut
  simp
  omega

-- The contents of sections that stand one behind the other, each of which ends at the first section
-- end behind its opening. Nothing else may stand between them.
def sections? (s : List Char) : Option (List (List Char)) :=
  match s with
  | [] => some []
  | c :: s =>
    match h : (stripStart? "<![CDATA[".toList (c :: s)).bind (cutAt? sectionEnd) with
    | none => none
    | some (part, rest) =>
      have := length_behind_section h
      (sections? rest).map (part :: ·)
termination_by s.length
decreasing_by all_goals (simp only [List.length_cons] at *; omega)

theorem sections?_section {part : List Char} (h : ¬ sectionEnd <:+: part) (rest : List Char) :
    sections? (sectionText part ++ rest) = (sections? rest).map (part :: ·) := by
  have hcut : (stripStart? "<![CDATA[".toList (sectionText part ++ rest)).bind
      (cutAt? sectionEnd) = some (part, rest) := by
    have htext : sectionText part ++ rest =
        "<![CDATA[".toList ++ (part ++ sectionEnd ++ rest) := by simp [sectionText]
    rw [htext, stripStart?_append]
    exact cutAt?_section h rest
  have hcons : sectionText part ++ rest =
      '<' :: ("![CDATA[".toList ++ part ++ sectionEnd ++ rest) := rfl
  rw [hcons] at hcut ⊢
  rw [sections?]
  split
  · rename_i hnone
    rw [hcut] at hnone
    cases hnone
  · rename_i hsome
    rw [hcut] at hsome
    cases hsome
    rfl

theorem sections?_written {parts : List (List Char)} (h : ∀ part ∈ parts, ¬ sectionEnd <:+: part) :
    sections? (parts.flatMap sectionText) = some parts := by
  induction parts with
  | nil => rw [List.flatMap_nil, sections?]
  | cons part parts ih =>
    obtain ⟨hpart, hparts⟩ := List.forall_mem_cons.mp h
    rw [List.flatMap_cons, sections?_section hpart, ih hparts, Option.map_some]

-- Every text is read back from its sections, and none of them holds a section end.
theorem sections?_cdata (text : String) :
    ∃ parts, sections? (cdata text).toList = some parts ∧ parts.flatten = text.toList ∧
      ∀ part ∈ parts, ¬ sectionEnd <:+: part := by
  have hparts : ∀ part ∈ cdataParts text.length text.toList, ¬ sectionEnd <:+: part :=
    fun _ => section_of_mem_cdataParts String.length_toList.le
  refine ⟨cdataParts text.length text.toList, ?_, flatten_cdataParts .., hparts⟩
  rw [toList_cdata, sections?_written hparts]

example : sections? (cdata "]]]>]]>>").toList =
    some ["]]]".toList, ">]]".toList, ">>".toList] := by decide +kernel

-- The bodies of these nodes are part of the document.
def showsBody : NodeKind → Bool
  | .taglibDirective | .comment _ | .pageDirective | .script .. | .insert _ | .text _ => false
  | _ => true

-- What a body shows is part of what its node shows. A node with something in its body is not
-- shown as an empty element.
theorem viewNode_child {t : Tree} {id c : NodeId} (hid : showsBody (t.kind id))
    (hc : c ∈ t.children id) (fuel : Nat) :
    (viewNode t fuel c).toList <:+: (viewNode t (fuel + 1) id).toList := by
  have hinside : (viewNode t fuel c).toList <:+:
      (String.join ((t.children id).map (viewNode t fuel))).toList := by
    rw [String.toList_join, List.flatMap_map]
    obtain ⟨front, behind, hsplit⟩ := List.append_of_mem hc
    rw [hsplit, List.flatMap_append, List.flatMap_cons, ← List.append_assoc]
    exact List.infix_append ..
  have hbody : (t.node id).body.isSome := by
    rw [Tree.children, Node.children] at hc
    cases hb : (t.node id).body with
    | none => simp [hb] at hc
    | some ids => rfl
  refine hinside.trans ?_
  rw [Tree.kind] at hid
  rw [viewNode]
  dsimp only
  rw [show (t.node id).children = t.children id from rfl]
  split
  case h_1 | h_2 | h_3 => exact List.infix_rfl
  case h_4 | h_5 | h_6 | h_7 | h_8 | h_9 =>
    rename_i hkind
    rw [hkind] at hid
    cases hid
  case h_10 =>
    rw [if_pos hbody]
    simp only [String.toList_append]
    rw [List.append_assoc, List.append_assoc]
    exact List.infix_append ..

-- Numbers grow on the way down, so that the fuel lasts for every node.
theorem viewNode_of_reachable {t : Tree} (ht : t.WellFormed) {id : NodeId} (h : t.Reachable id)
    (hshown : ∀ a ∈ t.ancestors id, showsBody (t.kind a)) :
    ∃ fuel, t.size < fuel + id ∧
      (viewNode t fuel id).toList <:+: (viewNode t (t.size + 1) Tree.root).toList := by
  induction h with
  | refl => exact ⟨t.size + 1, by omega, List.infix_rfl⟩
  | @tail p c hp hc ih =>
    have hlt := ht.child_lt hc
    rw [Tree.ancestors_eq_cons (ht.parent_eq hc) hlt.1] at hshown
    obtain ⟨hself, habove⟩ := List.forall_mem_cons.mp hshown
    obtain ⟨fuel, hfuel, hinfix⟩ := ih habove
    obtain ⟨fuel, rfl⟩ : ∃ n, fuel = n + 1 := ⟨fuel - 1, by omega⟩
    exact ⟨fuel, by omega, (viewNode_child hself hc fuel).trans hinfix⟩

theorem wrapped_infix_view {page : Page} (ht : page.tree.WellFormed) {id : NodeId} {run : TextRun}
    (hid : id ∈ page.tree.preorder) (hkind : page.tree.kind id = .text run)
    (hshown : ∀ a ∈ page.tree.ancestors id, showsBody (page.tree.kind a)) :
    (wrapped "text" run.text).toList <:+: page.view.toList := by
  have hlt := ht.lt_size_of_mem_preorder hid
  obtain ⟨fuel, hfuel, hinfix⟩ := viewNode_of_reachable ht (ht.mem_preorder_iff.mp hid) hshown
  obtain ⟨fuel, rfl⟩ : ∃ n, fuel = n + 1 := ⟨fuel - 1, by omega⟩
  rw [Tree.kind] at hkind
  simp only [viewNode, hkind] at hinfix
  refine hinfix.trans ?_
  unfold view
  simp only [String.toList_append]
  exact List.infix_append ..

end Page
end PageCompiler
