import PageCompiler.Proofs.Expression.Calls
import PageCompiler.Proofs.ClassText.References
import PageCompiler.Proofs.Text.Separators

namespace PageCompiler.ClassText

-- A function as it is declared by the library that its prefix stands for.
structure Bound (bindings : Bindings) (call : FunctionUse) (f : MappedFunction) : Prop where
  found : ∃ space library function, call.space = some space ∧
    bindings.library? space = some library ∧ library.function? call.name = some function ∧
    f.className = function.className ∧ f.method = function.methodName ∧
    function.parameterTypes? = some f.parameterTypes
  qualifiedName_eq : f.qualifiedName = call.qualifiedName

-- Every call has proper names and is one of a declared function.
def Resolved (bindings : Bindings) (calls : List FunctionUse) : Prop :=
  ∀ call ∈ calls, call.HasNames ∧ ∃ f, Bound bindings call f

theorem bound_of_checkFunction {x : Checking.Context} {mark : Mark} {call : FunctionUse}
    (h : Checking.checkFunction x mark call = .ok ()) : ∃ f, Bound x.bindings call f := by
  unfold Checking.checkFunction at h
  dsimp only at h
  split at h
  · cases h
  · rename_i space hspace
    split at h
    · cases h
    · rename_i function hfunction
      obtain ⟨library, hlibrary, hfunction⟩ := Option.bind_eq_some_iff.mp hfunction
      split at h
      · cases h
      · rename_i types htypes
        exact ⟨⟨call.qualifiedName, function.className, function.methodName, types⟩,
          ⟨space, library, function, hspace, hlibrary, hfunction, rfl, rfl, htypes⟩, rfl⟩

theorem bound_of_checkFunctions {x : Checking.Context} {mark : Mark} {calls : List FunctionUse}
    (h : Checking.checkFunctions x calls mark = .ok ()) :
    ∀ call ∈ calls, ∃ f, Bound x.bindings call f := by
  unfold Checking.checkFunctions at h
  induction calls with
  | nil => simp
  | cons call calls ih =>
    obtain ⟨_, hfirst, h⟩ := Checking.bind_eq_ok.mp h
    exact List.forall_mem_cons.mpr ⟨bound_of_checkFunction hfirst, ih h⟩

variable {bindings : Bindings} {call call' : FunctionUse} {f f' : MappedFunction}
  {calls calls' : List FunctionUse}

theorem FunctionMaps.mapped?_eq_some :
    FunctionMaps.mapped? bindings call = some f ↔ Bound bindings call f := by
  unfold FunctionMaps.mapped?
  simp only [Option.bind_eq_bind, Option.pure_def, Option.bind_eq_some_iff, Option.some.injEq]
  constructor
  · rintro ⟨space, hspace, library, hlibrary, function, hfunction, types, htypes, rfl⟩
    exact ⟨⟨space, library, function, hspace, hlibrary, hfunction, rfl, rfl, htypes⟩, rfl⟩
  · rintro ⟨⟨space, library, function, hspace, hlibrary, hfunction, hclass, hmethod, htypes⟩, hname⟩
    refine ⟨space, hspace, library, hlibrary, function, hfunction, _, htypes, ?_⟩
    cases f
    simp_all

theorem not_mem_of_isName {s : String} (h : IsName s) {d : Char}
    (hd : Expression.isNameChar d = false) : d ∉ s.toList := by
  intro hmem
  rw [h d hmem] at hd
  cases hd

theorem toList_qualifiedName {space : String} (h : call.space = some space) :
    call.qualifiedName.toList = space.toList ++ ':' :: call.name.toList := by
  rw [FunctionUse.qualifiedName, h]
  simp

-- A function is known by the name it is called under.
theorem Bound.eq_of_qualifiedName (h : Bound bindings call f) (h' : Bound bindings call' f')
    (hnames : call.HasNames) (hnames' : call'.HasNames)
    (heq : f.qualifiedName = f'.qualifiedName) : f = f' := by
  obtain ⟨⟨space, library, function, hspace, hlibrary, hfunction, hclass, hmethod, htypes⟩, hname⟩ :=
    h
  obtain ⟨⟨space', library', function', hspace', hlibrary', hfunction', hclass', hmethod',
    htypes'⟩, hname'⟩ := h'
  have hchars := congrArg String.toList heq
  rw [hname, hname', toList_qualifiedName hspace, toList_qualifiedName hspace'] at hchars
  obtain ⟨hs, hn⟩ := Text.append_cons_inj_right
    (not_mem_of_isName hnames.name (by decide)) (not_mem_of_isName hnames'.name (by decide)) hchars
  obtain rfl := String.toList_inj.mp hs
  rw [hlibrary] at hlibrary'
  cases hlibrary'
  rw [String.toList_inj.mp hn, hfunction'] at hfunction
  cases hfunction
  rw [htypes] at htypes'
  cases f
  cases f'
  simp_all

theorem Bound.not_mem_comma (h : Bound bindings call f) (hnames : call.HasNames) :
    ',' ∉ f.qualifiedName.toList := by
  obtain ⟨⟨space, -, -, hspace, -⟩, hname⟩ := h
  rw [hname, toList_qualifiedName hspace]
  have hleft := not_mem_of_isName (hnames.space space hspace) (d := ',') (by decide)
  have hright := not_mem_of_isName hnames.name (d := ',') (by decide)
  simp [hleft, hright]

theorem eraseDups_sublist : (l : List MappedFunction) → l.eraseDups.Sublist l
  | [] => List.Sublist.refl _
  | a :: l => by
    rw [List.eraseDups_cons]
    exact ((eraseDups_sublist _).trans List.filter_sublist).cons_cons a
termination_by l => l.length
decreasing_by exact Nat.lt_succ_of_le (List.length_filter_le _ _)

theorem nodup_eraseDups : (l : List MappedFunction) → l.eraseDups.Nodup
  | [] => List.nodup_nil
  | a :: l => by
    rw [List.eraseDups_cons, List.nodup_cons]
    exact ⟨by simp, nodup_eraseDups _⟩
termination_by l => l.length
decreasing_by exact Nat.lt_succ_of_le (List.length_filter_le _ _)

namespace FunctionMaps

theorem mem_mappedSet : f ∈ mappedSet bindings calls ↔ ∃ call ∈ calls, Bound bindings call f := by
  simp only [mappedSet, List.mem_eraseDups, List.mem_mergeSort, List.mem_filterMap,
    mapped?_eq_some]

theorem nodup_mappedSet : (mappedSet bindings calls).Nodup := nodup_eraseDups _

theorem pairwise_mappedSet :
    (mappedSet bindings calls).Pairwise fun a b => a.qualifiedName ≤ b.qualifiedName := by
  have hsorted : ((calls.filterMap (mapped? bindings)).mergeSort fun a b =>
      decide (a.qualifiedName ≤ b.qualifiedName)).Pairwise _ :=
    List.pairwise_mergeSort (by simpa using fun a b c => String.le_trans)
      (by simpa using fun a b => String.le_total _ _) _
  exact (hsorted.sublist (eraseDups_sublist _)).imp (by simp)

-- Without calls there are no functions, and otherwise there are some.
theorem mappedSet_eq_nil_iff (h : Resolved bindings calls) :
    mappedSet bindings calls = [] ↔ calls = [] := by
  constructor
  · intro hempty
    cases calls with
    | nil => rfl
    | cons call calls =>
      obtain ⟨-, f, hf⟩ := h call (List.mem_cons_self ..)
      have hmem : f ∈ mappedSet bindings (call :: calls) :=
        mem_mappedSet.mpr ⟨call, List.mem_cons_self .., hf⟩
      rw [hempty] at hmem
      cases hmem
  · rintro rfl
    simp [mappedSet]

theorem eq_of_qualifiedName (h : Resolved bindings calls) (h' : Resolved bindings calls')
    (hf : f ∈ mappedSet bindings calls) (hf' : f' ∈ mappedSet bindings calls')
    (heq : f.qualifiedName = f'.qualifiedName) : f = f' := by
  obtain ⟨call, hcall, hbound⟩ := mem_mappedSet.mp hf
  obtain ⟨call', hcall', hbound'⟩ := mem_mappedSet.mp hf'
  exact hbound.eq_of_qualifiedName hbound' (h call hcall).1 (h' call' hcall').1 heq

-- The same functions are listed in the same order.
theorem mappedSet_eq_iff (h : Resolved bindings calls) (h' : Resolved bindings calls') :
    mappedSet bindings calls = mappedSet bindings calls' ↔
      ∀ f, (∃ call ∈ calls, Bound bindings call f) ↔ ∃ call ∈ calls', Bound bindings call f := by
  simp only [← mem_mappedSet]
  constructor
  · rintro heq f
    rw [heq]
  · intro hsame
    have hperm := (List.perm_ext_iff_of_nodup nodup_mappedSet nodup_mappedSet).mpr hsame
    refine hperm.eq_of_pairwise (fun a b ha hb hab hba => ?_) pairwise_mappedSet pairwise_mappedSet
    exact eq_of_qualifiedName h h' ha hb (String.le_antisymm hab hba)

-- Fields are told apart by the names of their functions, and that is enough.
theorem key_injective (h : Resolved bindings calls) (h' : Resolved bindings calls')
    (hne : mappedSet bindings calls ≠ []) (hne' : mappedSet bindings calls' ≠ [])
    (hkey : key (mappedSet bindings calls) = key (mappedSet bindings calls')) :
    mappedSet bindings calls = mappedSet bindings calls' := by
  have hcomma : ∀ {calls}, Resolved bindings calls →
      ∀ w ∈ (mappedSet bindings calls).map MappedFunction.qualifiedName, ',' ∉ w.toList := by
    intro calls h
    rw [List.forall_mem_map]
    intro f hf
    obtain ⟨call, hcall, hbound⟩ := mem_mappedSet.mp hf
    exact hbound.not_mem_comma (h call hcall).1
  have hnames := Text.join_injective (d := ',') (by decide) (by simpa using hne)
    (by simpa using hne') (hcomma h) (hcomma h') hkey
  have hone : ∀ f ∈ mappedSet bindings calls, ∀ f' ∈ mappedSet bindings calls',
      f.qualifiedName = f'.qualifiedName → f = f' := fun f hf f' hf' =>
    eq_of_qualifiedName h h' hf hf'
  generalize mappedSet bindings calls = l at hnames hone
  generalize mappedSet bindings calls' = l' at hnames hone
  induction l generalizing l' with
  | nil => simpa using hnames.symm
  | cons f l ih =>
    cases l' with
    | nil => simp at hnames
    | cons f' l' =>
      rw [List.map_cons, List.map_cons, List.cons.injEq] at hnames
      rw [hone f (List.mem_cons_self ..) f' (List.mem_cons_self ..) hnames.1, ih l' hnames.2
        fun f hf f' hf' => hone f (List.mem_cons_of_mem _ hf) f' (List.mem_cons_of_mem _ hf')]

end FunctionMaps

end PageCompiler.ClassText
