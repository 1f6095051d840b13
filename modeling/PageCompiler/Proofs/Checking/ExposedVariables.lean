import PageCompiler.Proofs.Checking.Established

namespace PageCompiler

namespace VariableContract

-- The declaration takes its name from an attribute that has no value before the page runs.
def NamedAtRequest (v : VariableContract) (data : TagData) : Prop :=
  v.nameGiven = none ∧ ∃ attr, v.nameFromAttribute = some attr ∧ data.get? attr = some .requestTime

-- What the declaration comes to: a name that is given counts before the value of an attribute, and
-- without either there is no variable.
def exposed? (v : VariableContract) (data : TagData) : Option Variable :=
  (v.nameGiven.or (v.nameFromAttribute.bind data.literal?)).map fun name =>
    { name, className := v.className, declare := v.declare, scope := v.scope }

end VariableContract

-- The variables of the declarations and then those of the hook.
def Tag.exposedBy (tag : Tag) (data : TagData) : List Variable :=
  tag.exposed.filterMap (·.exposed? data) ++ (tag.hook.map fun hook => hook.exposed data).getD []

-- The variables that can be seen in one place.
def ScopedVariables.inScope (vars : ScopedVariables) : VariableScope → List Variable
  | .nested => vars.nested
  | .atBegin => vars.atBegin
  | .atEnd => vars.atEnd

namespace Checking

variable {data : TagData}

theorem declaredVariable_eq_ok_iff {v : VariableContract} {declared : Option Variable} :
    declaredVariable data v = .ok declared ↔
      ¬v.NamedAtRequest data ∧ declared = v.exposed? data := by
  unfold declaredVariable VariableContract.NamedAtRequest VariableContract.exposed?
  cases v.nameGiven with
  | some name => simp [eq_comm]
  | none =>
    cases v.nameFromAttribute with
    | none => simp [eq_comm]
    | some attr =>
      simp only [Option.none_or, Option.bind_some, TagData.literal?]
      cases hdatum : data.get? attr with
      | none => simp [hdatum, eq_comm]
      | some datum => cases datum <;> simp [hdatum, eq_comm]

-- All declarations come to something unless one of them is named at request time.
theorem declared_eq_ok_iff {vs : List VariableContract} {declared : List (Option Variable)} :
    vs.mapM (declaredVariable data) = .ok declared ↔
      (∀ v ∈ vs, ¬v.NamedAtRequest data) ∧ declared = vs.map (·.exposed? data) := by
  simp only [mapM_eq_ok, declaredVariable_eq_ok_iff]
  induction vs generalizing declared with
  | nil => simp
  | cons v vs ih =>
    simp only [List.forall₂_cons_left_iff, List.forall_mem_cons, ih]
    constructor
    · rintro ⟨_, _, ⟨hv, rfl⟩, ⟨hvs, rfl⟩, rfl⟩
      exact ⟨⟨hv, hvs⟩, rfl⟩
    · rintro ⟨⟨hv, hvs⟩, rfl⟩
      exact ⟨_, _, ⟨hv, rfl⟩, ⟨hvs, rfl⟩, rfl⟩

theorem repeatedVariable?_eq_none_iff {names : List String} {vars : List Variable} :
    repeatedVariable? names vars = none ↔
      (vars.map Variable.name).Nodup ∧ ∀ v ∈ vars, v.name ∉ names := by
  induction vars generalizing names with
  | nil => simp [repeatedVariable?]
  | cons v vars ih =>
    rw [repeatedVariable?, List.map_cons, List.nodup_cons, List.forall_mem_cons]
    by_cases hv : v.name ∈ names
    · simp [hv]
    · -- The names of the rest are new, and so they are not the first one's either.
      have hrest : (∀ w ∈ vars, w.name ∉ v.name :: names) ↔
          v.name ∉ vars.map Variable.name ∧ ∀ w ∈ vars, w.name ∉ names := by
        simp only [List.mem_cons, not_or, List.mem_map, not_exists, not_and]
        exact forall₂_and
      rw [if_neg (by simpa using hv), ih, hrest]
      tauto

theorem inScope_byScope (vars : List Variable) (scope : VariableScope) :
    (byScope vars).inScope scope = vars.filter fun v => v.scope == scope := by
  cases scope <;> rfl

-- Every variable goes into one of the three lists.
theorem all_byScope_perm (vars : List Variable) : (byScope vars).all.Perm vars := by
  induction vars with
  | nil => exact .refl _
  | cons v vars ih =>
    refine List.Perm.trans ?_ (ih.cons v)
    unfold byScope ScopedVariables.all
    cases hv : v.scope with
    | nested => simp [hv]
    | atBegin => simp [hv]
    | atEnd =>
      simp only [hv, List.filter_cons]
      exact List.perm_middle

theorem exposedVariables_eq_ok_iff {x : Context} {tag : Tag} {name : String} {mark : Mark}
    {vars : ScopedVariables} :
    exposedVariables x tag data name mark = .ok vars ↔
      (∀ v ∈ tag.exposed, ¬v.NamedAtRequest data) ∧
        ((tag.exposedBy data).map Variable.name).Nodup ∧ vars = byScope (tag.exposedBy data) := by
  unfold exposedVariables
  cases hdeclared : tag.exposed.mapM (declaredVariable data) with
  | error attr =>
    have hnone : ¬∀ v ∈ tag.exposed, ¬v.NamedAtRequest data := fun hall => by
      rw [declared_eq_ok_iff.mpr ⟨hall, rfl⟩] at hdeclared
      cases hdeclared
    exact iff_of_false nofun fun h => hnone h.1
  | ok declared =>
    obtain ⟨hall, rfl⟩ := declared_eq_ok_iff.mp hdeclared
    have hexposed : (tag.exposed.map (·.exposed? data)).filterMap id ++
        (tag.hook.map fun hook => hook.exposed data).getD [] = tag.exposedBy data := by
      rw [List.filterMap_map]
      rfl
    dsimp only
    rw [hexposed, and_iff_right hall]
    cases hrepeated : repeatedVariable? [] (tag.exposedBy data) with
    | none =>
      rw [and_iff_right (repeatedVariable?_eq_none_iff.mp hrepeated).1]
      exact ⟨fun h => (Except.ok.inj h).symm, fun h => h ▸ rfl⟩
    | some v =>
      refine iff_of_false nofun fun h => ?_
      rw [repeatedVariable?_eq_none_iff.mpr ⟨h.1, fun _ _ => List.not_mem_nil⟩] at hrepeated
      cases hrepeated

-- Whatever a tag declares, whatever is known of the attributes, and whatever its hook says: there
-- is a failure exactly if a declaration is named at request time or a name comes up twice.
-- Otherwise each list holds the variables of its scope, in their order; together they are all
-- variables, each of them once; and no two in any of the lists have the same name.
theorem exposedVariables_partition (x : Context) (tag : Tag) (data : TagData) (name : String)
    (mark : Mark) :
    ((∃ d, exposedVariables x tag data name mark = .error d) ↔
      (∃ v ∈ tag.exposed, v.NamedAtRequest data) ∨
        ¬((tag.exposedBy data).map Variable.name).Nodup) ∧
    ∀ vars, exposedVariables x tag data name mark = .ok vars →
      (∀ scope, vars.inScope scope = (tag.exposedBy data).filter fun v => v.scope == scope) ∧
        vars.all.Perm (tag.exposedBy data) ∧ (vars.all.map Variable.name).Nodup := by
  constructor
  · -- There is a failure where there are no variables.
    have hfails : (∃ d, exposedVariables x tag data name mark = .error d) ↔
        ¬∃ vars, exposedVariables x tag data name mark = .ok vars := by
      cases exposedVariables x tag data name mark <;> simp
    simp only [hfails, exposedVariables_eq_ok_iff, exists_and_left, exists_eq, and_true, not_and_or,
      not_forall, not_not, exists_prop]
  · intro vars h
    obtain ⟨-, hnodup, rfl⟩ := exposedVariables_eq_ok_iff.mp h
    have hperm := all_byScope_perm (tag.exposedBy data)
    exact ⟨inScope_byScope _, hperm, (hperm.map _).nodup_iff.mpr hnodup⟩

end Checking
end PageCompiler
