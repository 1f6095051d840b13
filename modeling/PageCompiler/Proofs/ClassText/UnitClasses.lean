import PageCompiler.CommandLine.Run
import PageCompiler.Proofs.ClassText.PoolFields
import PageCompiler.Proofs.Reading.UnitNames
import PageCompiler.Proofs.Site.Paths

namespace PageCompiler

open Text

namespace ClassText

open FileSystem (IsStep)

theorem not_mem_identifier {d : Char} (h : isIdentifierChar d = false) (name : String) :
    d ∉ (identifier name).toList := by
  intro hmem
  rw [isIdentifierChar_of_mem hmem] at h
  cases h

theorem isStep_identifier (name : String) : IsStep (identifier name) := by
  refine ⟨fun hempty => ?_, fun hdot => ?_, not_mem_identifier rfl name⟩
  · exact toList_identifier_ne_nil name (by rw [hempty]; rfl)
  · exact not_mem_identifier (d := '.') rfl name (by rw [hdot]; exact List.mem_singleton.mpr rfl)

-- The names on the way to a unit, the last of which is its own. The root of all units is called
-- like a page.
def unitPath (unit : String) : List String :=
  match UnitName.segments unit.toList with
  | [] => ["page"]
  | parts => parts.map String.ofList

-- The package below a base for some directories.
def packageOf (base : String) (directories : List String) : String :=
  base ++ String.join (directories.map ("." ++ ·))

theorem packageOf_cons (base d : String) (directories : List String) :
    packageOf base (d :: directories) = packageOf (base ++ "." ++ d) directories := by
  rw [packageOf, packageOf, List.map_cons, String.join_cons, String.append_assoc,
    String.append_assoc, String.append_assoc]

theorem split_packageOf {directories : List String} (h : ∀ d ∈ directories, '.' ∉ d.toList)
    (base : String) : split '.' (packageOf base directories) = split '.' base ++ directories := by
  induction directories generalizing base with
  | nil =>
    rw [packageOf, List.map_nil, String.join_nil, String.append_empty, List.append_nil]
  | cons d directories ih =>
    obtain ⟨hd, hrest⟩ := List.forall_mem_cons.mp h
    rw [packageOf_cons, ih hrest, split_append rfl, split_of_not_mem hd, List.append_assoc,
      List.singleton_append]

theorem packageOf_inj {base : String} {directories directories' : List String}
    (h : ∀ d ∈ directories, '.' ∉ d.toList) (h' : ∀ d ∈ directories', '.' ∉ d.toList) :
    packageOf base directories = packageOf base directories' ↔ directories = directories' := by
  refine ⟨fun heq => ?_, fun heq => by rw [heq]⟩
  have hsplit := split_packageOf h base
  rw [heq, split_packageOf h' base] at hsplit
  exact (List.append_cancel_left hsplit).symm

theorem foldl_package (base : String) (directories : List String) :
    directories.foldl (fun p d => p ++ "." ++ identifier d) base =
      packageOf base (directories.map identifier) := by
  induction directories generalizing base with
  | nil => rw [List.foldl_nil, List.map_nil, packageOf, List.map_nil, String.join_nil,
      String.append_empty]
  | cons d directories ih => rw [List.foldl_cons, ih, List.map_cons, packageOf_cons]

variable {base u u' : String}

-- The segments of a normal name are what stands between its slashes.
theorem split_of_normalize (hu : UnitName.normalize u = u) :
    (split '/' u).filter (fun s => !s.isEmpty) = (UnitName.segments u.toList).map String.ofList := by
  have hplain := UnitName.isPlain_segments u.toList
  have hu : u.toList = UnitName.ofSegments (UnitName.segments u.toList) := by
    rw [← UnitName.normalizeChars, ← String.toList_ofList (l := UnitName.normalizeChars _)]
    exact (congrArg String.toList hu).symm
  generalize UnitName.segments u.toList = parts at hu hplain
  have hkept : ∀ s ∈ parts.map String.ofList, (!s.isEmpty) = true := by
    intro s hs
    obtain ⟨part, hpart, rfl⟩ := List.mem_map.mp hs
    have hne := (hplain part hpart).1
    simpa using hne
  rw [split, hu, UnitName.ofSegments, splitAll, if_pos rfl, List.map_cons,
    List.filter_cons_of_neg (by decide)]
  cases parts with
  | nil => decide
  | cons part parts =>
    rw [splitAll_intercalate fun w hw => (hplain w hw).2.2.2, List.filter_eq_self.mpr hkept]

-- The class of a unit is told by the identifiers on its path.
theorem exists_classOfUnit_eq (base : String) (hu : UnitName.normalize u = u) :
    ∃ directories name, unitPath u = directories ++ [name] ∧
      classOfUnit base u = (packageOf base (directories.map identifier), identifier name) := by
  unfold classOfUnit unitPath
  dsimp only
  rw [split_of_normalize hu, foldl_package]
  cases UnitName.segments u.toList with
  | nil => exact ⟨[], "page", rfl, rfl⟩
  | cons part parts =>
    have hne : (part :: parts).map String.ofList ≠ [] := List.cons_ne_nil _ _
    refine ⟨_, _, (List.dropLast_append_getLast hne).symm, ?_⟩
    rw [List.getLast?_eq_getLast_of_ne_nil hne, Option.getD_some]

-- An identifier is written as a name and is its own identifier. It can stand on its own but for the
-- one of which nothing is left but an underscore, and so can the parts of the package and the name
-- of a class.
theorem identifier_standsAlone (name : String) :
    (isWritten (identifier name).toList = true ∧ identifier (identifier name) = identifier name ∧
      (StandsAlone (identifier name) ↔ ¬IsBare name) ∧ (identifier name = "_" ↔ IsBare name)) ∧
    ∀ base unit, UnitName.normalize unit = unit → ∃ directories last,
      unitPath unit = directories ++ [last] ∧
      classOfUnit base unit = (packageOf base (directories.map identifier), identifier last) ∧
      ((∀ part ∈ directories.map identifier ++ [identifier last], StandsAlone part) ↔
        ∀ step ∈ unitPath unit, ¬IsBare step) := by
  refine ⟨⟨isWritten_identifier name, identifier_identifier name, standsAlone_identifier_iff,
    identifier_eq_underscore_iff⟩, fun base unit hunit => ?_⟩
  obtain ⟨directories, last, hpath, hclass⟩ := exists_classOfUnit_eq base hunit
  refine ⟨directories, last, hpath, hclass, ?_⟩
  rw [hpath, ← List.map_singleton, ← List.map_append, List.forall_mem_map]
  simp only [standsAlone_identifier_iff]

-- A directory of the name `_`, whose package has a part that the language keeps for itself.
theorem identifier_standsAlone_underscore :
    classOfUnit "org" "/_/cart.page" = ("org._", "cart_page") ∧ ¬StandsAlone (identifier "_") ∧
      ∃ directories last, unitPath "/_/cart.page" = directories ++ [last] ∧
        ¬∀ part ∈ directories.map identifier ++ [identifier last], StandsAlone part := by
  obtain ⟨⟨-, -, halone, -⟩, hunit⟩ := identifier_standsAlone "_"
  have hbare : IsBare "_" := .inr ⟨'_', rfl, rfl⟩
  refine ⟨by decide +kernel, fun h => halone.mp h hbare, ?_⟩
  obtain ⟨directories, last, hpath, -, hparts⟩ := hunit "org" "/_/cart.page" (by decide +kernel)
  exact ⟨directories, last, hpath, fun h => hparts.mp h "_" (by decide +kernel) hbare⟩

theorem forall₂_sharesIdentifier {path path' : List String} :
    List.Forall₂ SharesIdentifier path path' ↔ path.map identifier = path'.map identifier := by
  rw [← List.forall₂_eq_eq_eq, List.forall₂_map_left_iff, List.forall₂_map_right_iff]
  simp only [identifier_eq_iff]

-- No point stands in a package but between its parts.
theorem not_mem_of_mem_map_identifier {d : String} {directories : List String}
    (h : d ∈ directories.map identifier) : '.' ∉ d.toList := by
  obtain ⟨part, -, rfl⟩ := List.mem_map.mp h
  exact not_mem_identifier rfl part

-- A class file is found by the directories of its package and its own name.
theorem names_classFile {dir name : String} {directories : List String} {p : CompiledPage}
    (hp : (p.package, p.className) =
      (packageOf base (directories.map identifier), identifier name)) :
    FileSystem.names (CommandLine.classFile dir p ".java") =
      FileSystem.names ((split '.' base).foldl Path.join dir) ++ directories.map identifier ++
        [identifier name ++ ".java"] := by
  obtain ⟨hpackage, hname⟩ := Prod.mk.inj hp
  have hsteps : ∀ d ∈ directories.map identifier, IsStep d :=
    List.forall_mem_map.mpr fun part _ => isStep_identifier part
  have hstep : IsStep (identifier name ++ ".java") := by
    have hlength : (identifier name ++ ".java").length = (identifier name).length + 5 :=
      String.length_append ..
    refine ⟨fun hempty => ?_, fun hdot => ?_, ?_⟩
    · rw [hempty] at hlength
      cases hlength
    · rw [hdot, show ".".length = 1 from rfl] at hlength
      omega
    · rw [String.toList_append, List.mem_append, not_or]
      exact ⟨not_mem_identifier rfl name, by decide⟩
  rw [CommandLine.classFile, hpackage, hname, FileSystem.names_join _
    (FileSystem.isAbsolute_of_isStep hstep), FileSystem.names_of_isStep hstep,
    split_packageOf fun _ => not_mem_of_mem_map_identifier, List.foldl_append,
    FileSystem.names_foldl_join hsteps]

-- Units with normal names have the same class, and their classes go to the same file, just when
-- their paths are equally long and each name on one shares its identifier with that on the other.
theorem classOfUnit_eq_iff (hu : UnitName.normalize u = u) (hu' : UnitName.normalize u' = u') :
    (classOfUnit base u = classOfUnit base u' ↔
        List.Forall₂ SharesIdentifier (unitPath u) (unitPath u')) ∧
      ∀ (dir : String) (p p' : CompiledPage), (p.package, p.className) = classOfUnit base u →
        (p'.package, p'.className) = classOfUnit base u' →
        (FileSystem.names (CommandLine.classFile dir p ".java") =
            FileSystem.names (CommandLine.classFile dir p' ".java") ↔
          List.Forall₂ SharesIdentifier (unitPath u) (unitPath u')) := by
  obtain ⟨directories, name, hpath, hclass⟩ := exists_classOfUnit_eq base hu
  obtain ⟨directories', name', hpath', hclass'⟩ := exists_classOfUnit_eq base hu'
  have hshared : List.Forall₂ SharesIdentifier (unitPath u) (unitPath u') ↔
      directories.map identifier = directories'.map identifier ∧
        identifier name = identifier name' := by
    rw [forall₂_sharesIdentifier, hpath, hpath', List.map_append, List.map_append,
      List.map_singleton, List.map_singleton, List.append_singleton_inj]
  rw [hshared, hclass, hclass', Prod.mk.injEq, packageOf_inj
    (fun _ => not_mem_of_mem_map_identifier) fun _ => not_mem_of_mem_map_identifier]
  refine ⟨Iff.rfl, fun dir p p' hp hp' => ?_⟩
  rw [names_classFile hp, names_classFile hp', List.append_assoc, List.append_assoc,
    List.append_cancel_left_eq, List.append_singleton_inj]
  simp

-- A digit and a reserved word in front, and the root of all units; then units that differ in a
-- letter.
theorem classOfUnit_eq_iff_sample :
    classOfUnit "org" "/9/class" = classOfUnit "org" "/_9/class_" ∧
      classOfUnit "org" "/" = classOfUnit "org" "/page" ∧
      classOfUnit "org" "/shop/cart.page" ≠ classOfUnit "org" "/shop/card.page" := by
  refine ⟨?_, ?_, fun heq => ?_⟩
  · exact (classOfUnit_eq_iff (by decide +kernel) (by decide +kernel)).1.mpr (by decide +kernel)
  · exact (classOfUnit_eq_iff (by decide +kernel) (by decide +kernel)).1.mpr (by decide +kernel)
  · have hshared := (classOfUnit_eq_iff (by decide +kernel) (by decide +kernel)).1.mp heq
    exact absurd hshared (by decide +kernel)

-- Two units that differ in a hyphen and an underscore have the same class.
theorem classOfUnit_not_injective :
    ¬∀ base u u' : String, UnitName.normalize u = u → UnitName.normalize u' = u' → u ≠ u' →
      classOfUnit base u ≠ classOfUnit base u' := by
  intro h
  refine h "org.pagec.generated" "/a-b.page" "/a_b.page" (by decide +kernel) (by decide +kernel)
    (by decide) ?_
  decide +kernel

end ClassText
end PageCompiler
