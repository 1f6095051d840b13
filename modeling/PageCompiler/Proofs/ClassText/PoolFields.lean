import PageCompiler.Proofs.ClassText.Identifiers
import PageCompiler.Proofs.Text.Separators
import Mathlib.Data.String.Basic

-- The field is named for the parts of a use, joined by underscores, and an underscore may also
-- stand in a part: so two uses share a field just when their parts make the same words. As long as
-- the parts are words themselves, they are then the same action with the same attributes, and both
-- or neither with a body.
namespace PageCompiler.ClassText

open Text

-- The runs of letters and digits of a completed name, empty ones included.
def wordsOf (name : String) : List (List Char) :=
  (completed name.toList).splitOnP fun c => !c.isAlphanum

-- The parts of a use: its action, its attributes from the last to the first, and whether a body is
-- missing.
def signature (space name : String) (attributes : List String) (hasBody : Bool) : List String :=
  space :: name :: (attributes.mergeSort fun a b => decide (b ≤ a)) ++
    if hasBody then [] else ["nobody"]

-- What identifiers keep does not separate, and what they replace does.
theorem splitOn_map_standIn (s : List Char) :
    (s.map standIn).splitOn '_' = s.splitOnP fun c => !c.isAlphanum := by
  induction s with
  | nil => rfl
  | cons c s ih =>
    rw [List.map_cons, List.splitOn_cons_eq_if_modifyHead, ih,
      List.splitOnP_cons_eq_if_modifyHead]
    cases h : c.isAlphanum with
    | false =>
      rw [standIn_of_not_isAlphanum h]
      rfl
    | true =>
      have hne : ¬(c == '_') = true := by
        rw [beq_iff_eq]
        rintro rfl
        cases h
      rw [standIn_of_isAlphanum h, if_neg hne]
      rfl

theorem splitOn_identifier (name : String) :
    (identifier name).toList.splitOn '_' = wordsOf name := by
  rw [toList_identifier, splitOn_map_standIn, wordsOf]

theorem join_cons_eq (sep first : String) (rest : List String) :
    join sep (first :: rest) = first ++ String.join (rest.map (sep ++ ·)) := by
  induction rest generalizing first with
  | nil => simp [join]
  | cons next rest ih =>
    have hrest : join sep (next :: rest) = _ := ih next
    rw [join, String.intercalate_cons_cons, ← join, hrest, List.map_cons, String.join_cons,
      String.append_assoc, String.append_assoc]

-- The name of a field is made from the identifiers of all parts alike.
theorem poolField_eq_join (space name : String) (attributes : List String) (hasBody : Bool) :
    poolField space name attributes hasBody =
      "_pagex_tagPool_" ++ join "_" ((signature space name attributes hasBody).map identifier) := by
  have hnobody : identifier "nobody" = "nobody" := by
    rw [← String.toList_inj, toList_identifier]
    decide +kernel
  have hrest : ((if hasBody then [] else ["nobody"]).map identifier).map ("_" ++ ·) =
      if hasBody then [] else ["_nobody"] := by
    cases hasBody with
    | false => rw [if_neg Bool.false_ne_true, List.map_singleton, hnobody]; rfl
    | true => rfl
  have htail : String.join (if hasBody then [] else ["_nobody"]) =
      if hasBody then "" else "_nobody" := by
    cases hasBody with
    | false => rw [if_neg Bool.false_ne_true, if_neg Bool.false_ne_true, String.join_cons,
        String.join_nil, String.append_empty]
    | true => rfl
  unfold poolField
  dsimp only
  rw [signature, List.cons_append, List.cons_append, List.map_cons, List.map_cons,
    List.map_append, join_cons_eq, List.map_cons, List.map_append, List.map_map, hrest,
    String.join_cons, String.join_append, htail]
  simp only [String.append_assoc, Function.comp_def]

theorem poolField_eq_iff_words {p n p' n' : String} {as as' : List String} {b b' : Bool} :
    poolField p n as b = poolField p' n' as' b' ↔
      (signature p n as b).flatMap wordsOf = (signature p' n' as' b').flatMap wordsOf := by
  have hwords : ∀ p n as b,
      (join "_" ((signature p n as b).map identifier)).toList.splitOn '_' =
        (signature p n as b).flatMap wordsOf := by
    intro p n as b
    rw [join, String.toList_intercalate]
    change (List.intercalate ['_'] _).splitOn '_' = _
    rw [splitOn_intercalate_eq_flatMap (by simp [signature]), List.flatMap_map, List.flatMap_map]
    exact congrArg (List.flatMap · _) (funext splitOn_identifier)
  rw [poolField_eq_join, poolField_eq_join, ← hwords, ← hwords, splitOn_injective.eq_iff,
    String.toList_inj, ← String.toList_inj, String.toList_append, String.toList_append,
    List.append_cancel_left_eq, String.toList_inj]

-- A name of letters and digits only.
def IsWord (name : String) : Prop := name.toList ≠ [] ∧ ∀ c ∈ name.toList, c.isAlphanum = true

instance (name : String) : Decidable (IsWord name) :=
  decidable_of_iff ((!name.toList.isEmpty && name.toList.all Char.isAlphanum) = true)
    (by simp [IsWord])

-- Such a name makes one word, with an empty one in front when it begins with a digit, or behind it
-- when it is reserved.
theorem wordsOf_of_isWord {name : String} (h : IsWord name) :
    wordsOf name =
      if name.toList.head?.any Char.isDigit then [[], name.toList]
      else if reservedWords.contains name then [name.toList, []]
      else [name.toList] := by
  obtain ⟨hne, hletters⟩ := h
  have hone : name.toList.splitOnP (fun c => !c.isAlphanum) = [name.toList] :=
    List.splitOnP_eq_singleton fun c hc => by rw [hletters c hc]; rfl
  rw [wordsOf, completed, if_neg hne, String.ofList_toList]
  split_ifs
  · rw [List.splitOnP_cons_eq_if_modifyHead, if_pos (by decide), hone]
  · rw [List.splitOnP_append_cons _ _ (by decide), hone]
    rfl
  · exact hone

-- Where one name ends and the next begins can be seen from the words: a name is no empty word, and
-- a reserved word always has one behind it.
theorem wordsOf_append_inj {a b : String} (ha : IsWord a) (hb : IsWord b) {r r' : List (List Char)}
    (h : wordsOf a ++ r = wordsOf b ++ r') : a = b ∧ r = r' := by
  have hreserved : ∀ {a b : String}, a.toList = b.toList → reservedWords.contains a = true →
      reservedWords.contains b = true := fun heq hin => String.toList_inj.mp heq ▸ hin
  rw [wordsOf_of_isWord ha, wordsOf_of_isWord hb] at h
  split_ifs at h with hda hdb hrb hra hdb hrb hdb hrb
  all_goals simp only [List.cons_append, List.nil_append, List.cons.injEq, true_and] at h
  · exact ⟨String.toList_inj.mp h.1, h.2⟩
  · exact absurd h.1.symm hb.1
  · exact absurd h.1.symm hb.1
  · exact absurd h.1 ha.1
  · exact ⟨String.toList_inj.mp h.1, h.2⟩
  · exact absurd (hreserved h.1 hra) hrb
  · exact absurd h.1 ha.1
  · exact absurd (hreserved h.1.symm hrb) hra
  · exact ⟨String.toList_inj.mp h.1, h.2⟩

theorem flatMap_wordsOf_injective {l l' : List String} (h : ∀ a ∈ l, IsWord a)
    (h' : ∀ a ∈ l', IsWord a) (heq : l.flatMap wordsOf = l'.flatMap wordsOf) : l = l' := by
  have hsome : ∀ {a l}, IsWord a → (a :: l).flatMap wordsOf ≠ [] := by
    intro a l ha hnil
    rw [List.flatMap_cons, wordsOf_of_isWord ha] at hnil
    split_ifs at hnil <;> cases hnil
  induction l generalizing l' with
  | nil =>
    cases l' with
    | nil => rfl
    | cons b l' => exact absurd heq.symm (hsome (h' b (List.mem_cons_self ..)))
  | cons a l ih =>
    obtain ⟨ha, hl⟩ := List.forall_mem_cons.mp h
    cases l' with
    | nil => exact absurd heq (hsome ha)
    | cons b l' =>
      obtain ⟨hb, hl'⟩ := List.forall_mem_cons.mp h'
      rw [List.flatMap_cons, List.flatMap_cons] at heq
      obtain ⟨rfl, hrest⟩ := wordsOf_append_inj ha hb heq
      rw [ih hl hl' hrest]

-- The order in which attributes are given does not matter.
theorem mergeSort_eq_iff_perm {as as' : List String} :
    as.mergeSort (fun a b => decide (b ≤ a)) = as'.mergeSort (fun a b => decide (b ≤ a)) ↔
      as.Perm as' := by
  constructor
  · intro h
    have hperm := List.mergeSort_perm as fun a b => decide (b ≤ a)
    rw [h] at hperm
    exact hperm.symm.trans (List.mergeSort_perm ..)
  · intro h
    have hsorted : ∀ l : List String,
        (l.mergeSort fun a b => decide (b ≤ a)).Pairwise fun a b => b ≤ a := fun l =>
      (List.pairwise_mergeSort (by simpa using fun a b c hba hcb => le_trans hcb hba)
        (by simpa using fun a b => le_total b a) l).imp (by simp)
    refine List.Perm.eq_of_pairwise (fun a b _ _ hba hab => le_antisymm hab hba) (hsorted as)
      (hsorted as') ?_
    exact (List.mergeSort_perm ..).trans (h.trans (List.mergeSort_perm ..).symm)

variable {p n p' n' : String} {as as' : List String} {b b' : Bool}

theorem signature_congr (hp : p = p') (hn : n = n') (has : as.Perm as') (hb : b = b') :
    signature p n as b = signature p' n' as' b' := by
  rw [signature, signature, hp, hn, mergeSort_eq_iff_perm.mpr has, hb]

-- A missing body is told from an attribute as long as none has that name.
theorem signature_injective (has : "nobody" ∉ as) (has' : "nobody" ∉ as')
    (h : signature p n as b = signature p' n' as' b') :
    p = p' ∧ n = n' ∧ as.Perm as' ∧ b = b' := by
  have hlast : ∀ {as : List String}, "nobody" ∉ as →
      "nobody" ∉ as.mergeSort fun a b => decide (b ≤ a) :=
    fun has hmem => has (List.mem_mergeSort.mp hmem)
  simp only [signature, List.cons_append, List.cons.injEq] at h
  obtain ⟨rfl, rfl, h⟩ := h
  have hbody : b = b' := by
    have hmem : ∀ {as : List String} (b : Bool), "nobody" ∉ as →
        ("nobody" ∈ as.mergeSort (fun a b => decide (b ≤ a)) ++ (if b then [] else ["nobody"]) ↔
          b = false) := by
      intro as b has
      cases b <;> simp [hlast has]
    have hsame := (hmem b has).symm.trans (h ▸ hmem b' has')
    cases b <;> cases b' <;> simp at hsame ⊢
  subst hbody
  exact ⟨rfl, rfl, mergeSort_eq_iff_perm.mp (List.append_cancel_right h), rfl⟩

theorem isWord_of_mem_signature (hp : IsWord p) (hn : IsWord n) (has : ∀ a ∈ as, IsWord a) :
    ∀ a ∈ signature p n as b, IsWord a := by
  have hnobody : IsWord "nobody" := by decide
  rw [signature, List.forall_mem_append, List.forall_mem_cons, List.forall_mem_cons]
  refine ⟨⟨hp, hn, fun a ha => has a (List.mem_mergeSort.mp ha)⟩, ?_⟩
  cases b with
  | false => exact List.forall_mem_singleton.mpr hnobody
  | true => exact List.forall_mem_nil _

-- Two uses share a field just when their parts make the same words. So uses of the same action with
-- the same attributes, and both or neither with a body, always share one; and where all names are
-- of letters and digits, and no attribute is called like a missing body, no others do.
theorem poolField_eq_iff :
    (poolField p n as b = poolField p' n' as' b' ↔
        (signature p n as b).flatMap wordsOf = (signature p' n' as' b').flatMap wordsOf) ∧
      (p = p' ∧ n = n' ∧ as'.Perm as ∧ b = b' → poolField p n as b = poolField p' n' as' b') ∧
      ((∀ a ∈ p :: n :: as ++ p' :: n' :: as', IsWord a) → "nobody" ∉ as ++ as' →
        (poolField p n as b = poolField p' n' as' b' ↔
          p = p' ∧ n = n' ∧ as'.Perm as ∧ b = b')) := by
  have hwords : poolField p n as b = poolField p' n' as' b' ↔
      (signature p n as b).flatMap wordsOf = (signature p' n' as' b').flatMap wordsOf :=
    poolField_eq_iff_words
  have hsame : p = p' ∧ n = n' ∧ as'.Perm as ∧ b = b' →
      poolField p n as b = poolField p' n' as' b' := by
    rintro ⟨hp, hn, has, hb⟩
    rw [hwords, signature_congr hp hn has.symm hb]
  refine ⟨hwords, hsame, fun hall hfree => ⟨fun heq => ?_, hsame⟩⟩
  simp only [List.cons_append, List.forall_mem_cons, List.forall_mem_append] at hall
  obtain ⟨hp, hn, has, hp', hn', has'⟩ := hall
  rw [List.mem_append, not_or] at hfree
  have hsignature := flatMap_wordsOf_injective (isWord_of_mem_signature hp hn has)
    (isWord_of_mem_signature hp' hn' has') (hwords.mp heq)
  obtain ⟨hp, hn, has, hb⟩ := signature_injective hfree.1 hfree.2 hsignature
  exact ⟨hp, hn, has.symm, hb⟩

-- Attributes in any order, a body or none; then two different actions that share a field, and an
-- attribute that is taken for a missing body.
theorem poolField_eq_iff_sample :
    poolField "x" "box" ["title", "id"] true = poolField "x" "box" ["id", "title"] true ∧
      poolField "x" "box" ["if", "9"] true ≠ poolField "x" "box" ["if", "9"] false ∧
      poolField "a" "b_c" [] true = poolField "a_b" "c" [] true ∧
      poolField "a" "b" ["nobody"] true = poolField "a" "b" [] false := by
  refine ⟨poolField_eq_iff.2.1 ⟨rfl, rfl, List.Perm.swap .., rfl⟩, fun heq => ?_, ?_, ?_⟩
  · obtain ⟨-, -, -, hbody⟩ := (poolField_eq_iff.2.2 (by decide) (by decide)).mp heq
    cases hbody
  · exact poolField_eq_iff.1.mpr (by decide +kernel)
  · exact poolField_eq_iff.1.mpr (by decide +kernel)

end PageCompiler.ClassText
