import PageCompiler.Proofs.Text.Separators
import PageCompiler.Site.FileSystem

namespace PageCompiler

open Text
open Text.Utf8 (Bytes)

namespace Path

theorem isAbsolute_iff {path : String} : isAbsolute path ↔ path.toList.head? = some '/' := by
  cases hpath : path.toList with
  | nil => simp [isAbsolute, begins, startsWith, stripStart?, hpath]
  | cons c cs =>
    by_cases hc : '/' = c
    · simp [isAbsolute, begins, startsWith, stripStart?, hpath, ← hc]
    · simp [isAbsolute, begins, startsWith, stripStart?, hpath, hc, Ne.symm hc]

theorem isAbsolute_append {base : String} (h : base ≠ "") (path : String) :
    isAbsolute (base ++ path) = isAbsolute base := by
  obtain ⟨c, cs, hbase⟩ : ∃ c cs, base.toList = c :: cs :=
    List.exists_cons_of_ne_nil (by simpa using h)
  rw [Bool.eq_iff_iff, isAbsolute_iff, isAbsolute_iff, String.toList_append, hbase]
  rfl

theorem exists_of_ends {path : String} (h : ends "/" path) : ∃ front, path = front ++ "/" := by
  obtain ⟨front, hfront⟩ := Option.isSome_iff_exists.mp h
  refine ⟨String.ofList front, ?_⟩
  rw [← String.toList_inj, String.toList_append, String.toList_ofList]
  exact eq_of_stripEnd? hfront

end Path

namespace FileSystem

open PageCompiler.Path

theorem names_append (a b : String) : names (a ++ "/" ++ b) = names a ++ names b := by
  rw [names, split_append rfl, List.filter_append, ← names, ← names]

theorem names_empty : names "" = [] := by decide +kernel

-- A relative path that is joined to a base is put behind it.
theorem join_cases (base : String) {path : String} (h : isAbsolute path = false) :
    (base = "" ∧ join base path = path) ∨
      (∃ front, base = front ++ "/" ∧ join base path = front ++ "/" ++ path) ∨
      (base ≠ "" ∧ join base path = base ++ "/" ++ path) := by
  unfold Path.join
  rw [h, Bool.false_or]
  split_ifs with hempty hslash
  · exact .inl ⟨String.isEmpty_iff.mp hempty, rfl⟩
  · obtain ⟨front, rfl⟩ := exists_of_ends hslash
    exact .inr (.inl ⟨front, rfl, rfl⟩)
  · exact .inr (.inr ⟨fun heq => hempty (String.isEmpty_iff.mpr heq), rfl⟩)

theorem names_join (base : String) {path : String} (h : isAbsolute path = false) :
    names (join base path) = names base ++ names path := by
  rcases join_cases base h with ⟨rfl, hjoin⟩ | ⟨front, rfl, hjoin⟩ | ⟨-, hjoin⟩
  · rw [hjoin, names_empty, List.nil_append]
  · have hfront : names (front ++ "/") = names front := by
      have hsame := names_append front ""
      rwa [String.append_empty, names_empty, List.append_nil] at hsame
    rw [hjoin, names_append, hfront]
  · rw [hjoin, names_append]

theorem isAbsolute_join (base : String) {path : String} (h : isAbsolute path = false) :
    isAbsolute (join base path) = isAbsolute base := by
  rcases join_cases base h with ⟨rfl, hjoin⟩ | ⟨front, rfl, hjoin⟩ | ⟨hne, hjoin⟩
  · rw [hjoin, h]
    rfl
  · rw [hjoin]
    exact isAbsolute_append (by simp) path
  · rw [hjoin, String.append_assoc]
    exact isAbsolute_append hne _

-- A name that leads somewhere, and no further than one step.
def IsStep (name : String) : Prop := name ≠ "" ∧ name ≠ "." ∧ '/' ∉ name.toList

theorem names_of_isStep {name : String} (h : IsStep name) : names name = [name] := by
  obtain ⟨hempty, hdot, hslash⟩ := h
  rw [names, split_of_not_mem hslash, List.filter_cons_of_pos (by simp [hempty, hdot]),
    List.filter_nil]

theorem isAbsolute_of_isStep {name : String} (h : IsStep name) : isAbsolute name = false := by
  rw [Bool.eq_false_iff, Ne, isAbsolute_iff]
  intro hhead
  exact h.2.2 (List.mem_of_mem_head? hhead)

theorem names_foldl_join {steps : List String} (h : ∀ name ∈ steps, IsStep name) (base : String) :
    names (steps.foldl Path.join base) = names base ++ steps := by
  induction steps generalizing base with
  | nil => rw [List.foldl_nil, List.append_nil]
  | cons name steps ih =>
    obtain ⟨hname, hsteps⟩ := List.forall_mem_cons.mp h
    rw [List.foldl_cons, ih hsteps, names_join base (isAbsolute_of_isStep hname),
      names_of_isStep hname, List.append_assoc, List.singleton_append]

-- Steps with a slash between any two of them.
theorem names_intercalate {steps : List String} (h : ∀ name ∈ steps, IsStep name) :
    names (Text.join "/" steps) = steps := by
  induction steps with
  | nil => exact names_empty
  | cons name steps ih =>
    obtain ⟨hname, hsteps⟩ := List.forall_mem_cons.mp h
    cases steps with
    | nil => exact names_of_isStep hname
    | cons next steps =>
      have hjoin : Text.join "/" (name :: next :: steps) =
          name ++ "/" ++ Text.join "/" (next :: steps) := by
        simp [Text.join, String.append_assoc]
      rw [hjoin, names_append, names_of_isStep hname, ih hsteps, List.singleton_append]

variable {fs : FileSystem} {place place' parts lower : List String} {path base : String}
  {content : Bytes}

theorem follow_append (fs : FileSystem) (place parts more : List String) :
    fs.follow place (parts ++ more) =
      (fs.follow place parts).bind fun reached => fs.follow reached more := by
  induction parts generalizing place with
  | nil => rfl
  | cons name parts ih =>
    rw [List.cons_append, follow, follow]
    split_ifs
    · rfl
    · exact ih _
    · exact ih _
    · rfl
    · rfl

-- Without two dots every name leads one level down.
theorem eq_of_follow (hparts : ".." ∉ parts) (h : fs.follow place parts = .ok place') :
    place' = place ++ parts := by
  induction parts generalizing place with
  | nil =>
    cases h
    rw [List.append_nil]
  | cons name parts ih =>
    simp only [List.mem_cons, not_or] at hparts
    rw [follow, if_neg (Ne.symm hparts.1)] at h
    split_ifs at h
    rw [ih hparts.2 h, List.append_assoc, List.singleton_append]

theorem below?_of_names (habsolute : isAbsolute path = isAbsolute base)
    (hnames : names path = names base ++ lower) (h : fs.below? base = some parts) :
    fs.below? path = some (parts ++ lower) := by
  unfold below? at h ⊢
  dsimp only at h ⊢
  rw [habsolute, hnames]
  split_ifs at h with hbase hhome
  · have hbelow := List.isPrefixOf_iff_prefix.mp hhome
    have hlower := List.isPrefixOf_iff_prefix.mpr (hbelow.trans (List.prefix_append _ lower))
    cases h
    rw [if_pos hbase, if_pos hlower, List.drop_append_of_le_length hbelow.length_le]
  · cases h
    rw [if_neg hbase]

theorem find_eq_ok {entry : Entry} (h : fs.find path = .ok entry) :
    ∃ parts place, fs.below? path = some parts ∧ fs.follow [] parts = .ok place ∧
      (entry = .directory place ∨
        ∃ content, entry = .file place content ∧ (place, content) ∈ fs.files) := by
  unfold find at h
  split at h
  · cases h
  cases hbelow : fs.below? path with
  | none =>
    rw [hbelow] at h
    cases h
  | some parts =>
    rw [hbelow] at h
    dsimp only [bind, Except.bind] at h
    cases hfollow : fs.follow [] parts with
    | error e =>
      rw [hfollow] at h
      cases h
    | ok place =>
      rw [hfollow] at h
      refine ⟨parts, place, rfl, hfollow, ?_⟩
      dsimp only at h
      split at h
      · cases h
        exact .inl rfl
      cases hlookup : fs.files.lookup place with
      | none =>
        rw [hlookup] at h
        cases h
      | some content =>
        rw [hlookup] at h
        dsimp only at h
        split at h
        · cases h
        cases h
        obtain ⟨before, behind, hfiles, -⟩ := List.lookup_eq_some_iff.mp hlookup
        exact .inr ⟨content, rfl, by rw [hfiles]; simp⟩

-- What is read below a directory, without two dots on the way, is a file in this directory.
theorem mem_of_read (habsolute : isAbsolute path = isAbsolute base)
    (hnames : names path = names base ++ lower) (hlower : ".." ∉ lower)
    (hbase : fs.find base = .ok (.directory place)) (h : fs.read path = .ok content) :
    (place ++ lower, content) ∈ fs.files := by
  obtain ⟨parts, reached, hbelow, hfollow, hentry⟩ := find_eq_ok hbase
  obtain rfl : place = reached := by
    rcases hentry with heq | ⟨_, heq, -⟩ <;> cases heq
    rfl
  cases hfind : fs.find path with
  | error e =>
    rw [read, hfind] at h
    cases h
  | ok entry =>
    rw [read, hfind] at h
    obtain ⟨all, place', hbelow', hfollow', hentry'⟩ := find_eq_ok hfind
    rw [below?_of_names habsolute hnames hbelow] at hbelow'
    cases hbelow'
    rw [follow_append, hfollow] at hfollow'
    rcases hentry' with rfl | ⟨content', rfl, hmem⟩
    · cases h
    · cases h
      rwa [eq_of_follow hlower hfollow'] at hmem

end FileSystem
end PageCompiler
