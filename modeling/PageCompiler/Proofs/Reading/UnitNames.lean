import PageCompiler.Proofs.Site.Paths
import PageCompiler.Proofs.Text.Separators
import PageCompiler.Reading.Unit
import PageCompiler.Source.Loader
import Mathlib.Data.List.Basic

namespace PageCompiler

open Text Builder

namespace UnitName

-- A segment that is kept as it is.
def IsPlain (segment : List Char) : Prop :=
  segment ≠ [] ∧ segment ≠ ['.'] ∧ segment ≠ ['.', '.'] ∧ '/' ∉ segment

theorem isPlain_of_mem_foldl {parts kept : List (List Char)} (hparts : ∀ w ∈ parts, '/' ∉ w)
    (hkept : ∀ w ∈ kept, IsPlain w) : ∀ w ∈ parts.foldl keep kept, IsPlain w := by
  induction parts generalizing kept with
  | nil => exact hkept
  | cons part parts ih =>
    obtain ⟨hpart, hparts⟩ := List.forall_mem_cons.mp hparts
    refine ih hparts fun w hw => ?_
    unfold keep at hw
    split at hw
    · exact hkept w hw
    · rename_i hdot
      split at hw
      · exact hkept w (List.mem_of_mem_tail hw)
      · rename_i hdots
        rcases List.mem_cons.mp hw with rfl | hw
        · simp only [Bool.or_eq_true, decide_eq_true_eq, not_or] at hdot
          exact ⟨hdot.1, hdot.2, hdots, hpart⟩
        · exact hkept w hw

theorem isPlain_segments (name : List Char) : ∀ w ∈ segments name, IsPlain w := by
  intro w hw
  exact isPlain_of_mem_foldl (fun w hw => not_mem_of_mem_splitAll hw) (by simp) w
    (List.mem_reverse.mp hw)

theorem foldl_keep {parts : List (List Char)} (h : ∀ w ∈ parts, IsPlain w)
    (kept : List (List Char)) : parts.foldl keep kept = parts.reverse ++ kept := by
  induction parts generalizing kept with
  | nil => rfl
  | cons part parts ih =>
    obtain ⟨⟨hempty, hdot, hdots, -⟩, hparts⟩ := List.forall_mem_cons.mp h
    have hkeep : keep kept part = part :: kept := by
      rw [keep, if_neg (by simp [hempty, hdot]), if_neg hdots]
    rw [List.foldl_cons, hkeep, ih hparts, List.reverse_cons, List.append_assoc]
    rfl

theorem segments_ofSegments {parts : List (List Char)} (h : ∀ w ∈ parts, IsPlain w) :
    segments (ofSegments parts) = parts := by
  rw [segments, ofSegments, splitAll, if_pos rfl, List.foldl_cons]
  cases parts with
  | nil => rfl
  | cons part parts =>
    rw [splitAll_intercalate fun w hw => (h w hw).2.2.2]
    rw [show keep [] [] = [] from rfl, foldl_keep h]
    simp

theorem normalize_normalize (name : String) : normalize (normalize name) = normalize name := by
  unfold normalize normalizeChars
  rw [String.toList_ofList, segments_ofSegments (isPlain_segments name.toList)]

theorem normalize_resolve (base target : String) :
    normalize (resolve base target) = resolve base target := by
  unfold resolve
  split <;> exact normalize_normalize _

end UnitName

namespace Loader

-- What can be loaded under a normal name is one of the units.
theorem mem_of_load {units : List (String × Utf8.Bytes)} {name : String} {content : Utf8.Bytes}
    (h : (Loader.memory units).load name = .ok content) (hname : UnitName.normalize name = name) :
    name ∈ units.map Prod.fst := by
  unfold load at h
  dsimp only at h
  rw [hname] at h
  cases hlookup : units.lookup name with
  | some found =>
    obtain ⟨before, behind, rfl, -⟩ := List.lookup_eq_some_iff.mp hlookup
    simp
  | none =>
    rw [hlookup] at h
    cases h

end Loader

namespace UnitName

-- A lone slash, or plain segments with a slash in front of each.
def IsNormal (name : String) : Prop :=
  ∃ parts, (∀ w ∈ parts, IsPlain w) ∧ name = String.ofList (ofSegments parts)

theorem isNormal_normalize (name : String) : IsNormal (normalize name) :=
  ⟨segments name.toList, isPlain_segments _, rfl⟩

theorem isNormal_iff {name : String} : IsNormal name ↔ normalize name = name := by
  constructor
  · rintro ⟨parts, hparts, rfl⟩
    rw [normalize, normalizeChars, String.toList_ofList, segments_ofSegments hparts]
  · intro h
    exact h ▸ isNormal_normalize name

instance (name : String) : Decidable (IsNormal name) := decidable_of_iff _ isNormal_iff.symm

theorem isNormal_resolve (base target : String) : IsNormal (resolve base target) :=
  isNormal_iff.mpr (normalize_resolve base target)

-- An absolute target stands for itself.
theorem resolve_absolute (base target : String) :
    resolve base ("/" ++ target) = normalize ("/" ++ target) := by
  have htarget : ("/" ++ target).toList = '/' :: target.toList := by simp
  unfold resolve
  split
  · rename_i heq
    rw [← heq, String.ofList_toList]
  · rename_i hrelative
    exact absurd htarget (hrelative _)

theorem isStep_of_isPlain {w : List Char} (h : IsPlain w) :
    FileSystem.IsStep (String.ofList w) := by
  obtain ⟨hempty, hdot, -, hslash⟩ := h
  refine ⟨by simpa using hempty, fun heq => hdot ?_, by simpa using hslash⟩
  simpa using congrArg String.toList heq

end UnitName

namespace Loader

open UnitName

-- The path of a unit below the root directory.
def relativePath (parts : List (List Char)) : String := Text.join "/" (parts.map String.ofList)

theorem toList_relativePath (parts : List (List Char)) :
    (relativePath parts).toList = List.intercalate ['/'] parts := by
  simp [relativePath, Text.join, String.toList_intercalate, Function.comp_def]

theorem isAbsolute_relativePath {parts : List (List Char)} (h : ∀ w ∈ parts, IsPlain w) :
    Path.isAbsolute (relativePath parts) = false := by
  rw [Bool.eq_false_iff, Ne, Path.isAbsolute_iff, toList_relativePath]
  cases parts with
  | nil => simp
  | cons part parts =>
    obtain ⟨hempty, -, -, hslash⟩ := h part (List.mem_cons_self ..)
    obtain ⟨c, cs, rfl⟩ := List.exists_cons_of_ne_nil hempty
    have hc : c ≠ '/' := by
      rintro rfl
      exact hslash (List.mem_cons_self ..)
    cases parts <;> simpa using hc

theorem pathOf_eq (root name : String) :
    pathOf root name = Path.join root (relativePath (segments name.toList)) := by
  have hplain := isPlain_segments name.toList
  have hrelative : dropLeading '/' (normalize name) = relativePath (segments name.toList) := by
    have habsolute := isAbsolute_relativePath hplain
    rw [Bool.eq_false_iff, Ne, Path.isAbsolute_iff] at habsolute
    rw [← String.toList_inj, dropLeading, UnitName.normalize, normalizeChars, ofSegments,
      String.toList_ofList, String.toList_ofList, ← toList_relativePath,
      List.dropWhile_cons_of_pos (by decide)]
    cases hpath : (relativePath (segments name.toList)).toList with
    | nil => rfl
    | cons c cs =>
      rw [hpath] at habsolute
      exact List.dropWhile_cons_of_neg (by simpa using habsolute)
  rw [pathOf, hrelative]

theorem names_pathOf (root name : String) :
    FileSystem.names (pathOf root name) =
      FileSystem.names root ++ (segments name.toList).map String.ofList := by
  have hplain := isPlain_segments name.toList
  rw [pathOf_eq, FileSystem.names_join root (isAbsolute_relativePath hplain), relativePath,
    FileSystem.names_intercalate]
  exact List.forall_mem_map.mpr fun w hw => isStep_of_isPlain (hplain w hw)

theorem dots_not_mem_segments (name : String) :
    ".." ∉ (segments name.toList).map String.ofList := by
  intro h
  obtain ⟨w, hw, heq⟩ := List.mem_map.mp h
  exact (isPlain_segments _ w hw).2.2.1 (by simpa using congrArg String.toList heq)

-- A unit that is read from a directory is one of the files in it.
theorem mem_of_load_directory {root name : String} {files : FileSystem} {place : List String}
    {content : Utf8.Bytes} (hroot : files.find root = .ok (.directory place))
    (h : (Loader.directory root files).load name = .ok content) :
    (place ++ (segments name.toList).map String.ofList, content) ∈ files.files := by
  have habsolute : Path.isAbsolute (pathOf root name) = Path.isAbsolute root := by
    rw [pathOf_eq]
    exact FileSystem.isAbsolute_join root (isAbsolute_relativePath (isPlain_segments _))
  refine FileSystem.mem_of_read habsolute (names_pathOf root name) (dots_not_mem_segments name)
    hroot ?_
  unfold load at h
  dsimp only at h
  split at h
  · rename_i hread
    cases h
    exact hread
  · cases h

end Loader

-- Something that delivers units by name. It is asked while a page is read, and may do what it
-- likes: change the state of the reading, or break the reading off.
structure Supplier where
  load : String → BuildM (Except Diagnostic Utf8.Bytes)
  locate? : String → BuildM (Option String)

namespace Supplier

def ofLoader (loader : Loader) : Supplier where
  load name := pure (loader.load name)
  locate? name := pure (loader.locate? name)

-- Asks another supplier as soon as a name is not normal.
def guarded (s other : Supplier) : Supplier where
  load name := if UnitName.IsNormal name then s.load name else other.load name
  locate? name := if UnitName.IsNormal name then s.locate? name else other.locate? name

variable {s other : Supplier} {name : String}

theorem load_guarded (h : UnitName.IsNormal name) :
    (s.guarded other).load name = s.load name := by
  rw [guarded]
  dsimp only
  rw [if_pos h]

theorem locate?_guarded (h : UnitName.IsNormal name) :
    (s.guarded other).locate? name = s.locate? name := by
  rw [guarded]
  dsimp only
  rw [if_pos h]

def enterUnit (o : Options) (s : Supplier) (parent : NodeId) (target : String)
    (origin : UnitOrigin) (mark : Mark) : BuildM (NodeId × String × List Char × UnitForm) := do
  let base := (← get).units.head?.getD mark.unit
  let name := UnitName.resolve base target
  if (← get).units.contains name then
    invalidDirective ("'" ++ name ++ "' includes itself") mark
  let bytes ← placeError mark (← s.load name)
  let decoded ← placeError mark (Encoding.decode name bytes o.pageEncoding o.defaultEncoding)
  let form := UnitForm.choose name decoded.text o.forceStrict
  modifyTree (·.addSource name (String.ofList decoded.text))
  let file := (← s.locate? name).getD name
  modifyBindings (·.addDependency file)
  let parentRoot := (← get).tree.unitRoot parent
  let root ← append parent
    { kind := .root
        { unit := name, form, origin, encoding := decoded.encoding
          parentRoot := some parentRoot }
      mark := .start name
      body := some [] }
  return (root, name, decoded.text, form)

def includeUnit (o : Options) (s : Supplier) (readUnit : UnitReader) : Includer :=
  fun parent target origin mark => do
    let (root, name, text, form) ← enterUnit o s parent target origin mark
    readUnit root name text form
    return root

def readLevel (o : Options) (s : Supplier) (inner : UnitReader) : UnitReader :=
  fun root unit text form => do
    let enclosing := (← get).units
    modify fun b => { b with units := unit :: enclosing }
    let includer := includeUnit o s inner
    match form with
    | .relaxed => Relaxed.read includer root unit text
    | .strict => Strict.read includer o.preserveXmlWhitespace root unit text
    modify fun b => { b with units := enclosing }

def readUnit (o : Options) (s : Supplier) : Nat → UnitReader
  | 0 => fun _ unit _ _ => invalidDirective ("'" ++ unit ++ "' includes itself") (.start unit)
  | depth + 1 => readLevel o s (readUnit o s depth)

def readAll (o : Options) (s : Supplier) (reader : UnitReader) (unit : String)
    (text : List Char) (form : UnitForm) : BuildM Page := do
  let start := Mark.start unit
  for name in o.prelude do
    discard (includeUnit o s reader Tree.root name .prelude start)
  reader Tree.root unit text form
  for name in o.coda do
    discard (includeUnit o s reader Tree.root name .coda start)
  finish

def decodeUnit (o : Options) (unit : String) (content : Except Diagnostic Utf8.Bytes) :
    Except Diagnostic Encoding.Decoded := do
  let bytes ← content
  Encoding.decode unit bytes o.pageEncoding o.defaultEncoding

def pageRoot (o : Options) (unit : String) (decoded : Encoding.Decoded) : UnitRoot :=
  { unit, form := .choose unit decoded.text o.forceStrict, origin := .page
    encoding := decoded.encoding, parentRoot := none }

-- The page's own unit makes the root of the tree.
def enterPage (o : Options) (s : Supplier) (unit : String) : BuildM (List Char × UnitForm) := do
  let decoded ← ofExcept (decodeUnit o unit (← s.load unit))
  let root := pageRoot o unit decoded
  modifyTree fun _ => Tree.ofRoot root (String.ofList decoded.text)
  return (decoded.text, root.form)

-- Reads a page in which units can be included down to the given depth.
def read (o : Options) (s : Supplier) (depth : Nat) (resolver : Resolver) (name : String) :
    Except Diagnostic Page × Resolver :=
  let unit := UnitName.normalize name
  let reading : BuildM Page := do
    let (text, form) ← enterPage o s unit
    readAll o s (readUnit o s depth) unit text form
  match reading.run (.ofOptions o default resolver) with
  | .ok page b => (.ok page, b.resolver)
  | .error d b => (.error d, b.resolver)

variable {o : Options} {loader : Loader}

theorem readUnit_ofLoader (depth : Nat) :
    readUnit o (.ofLoader loader) depth = Page.readUnit o loader depth := by
  induction depth with
  | zero => rfl
  | succ depth ih =>
    rw [readUnit, Page.readUnit, ih]
    rfl

theorem readAll_ofLoader : readAll o (.ofLoader loader) = Page.readAll o loader := rfl

theorem enterPage_ofLoader (unit : String) (b : Builder) :
    enterPage o (.ofLoader loader) unit b =
      match decodeUnit o unit (loader.load unit) with
      | .error d => .error d b
      | .ok decoded => .ok (decoded.text, (pageRoot o unit decoded).form)
          { b with tree := Tree.ofRoot (pageRoot o unit decoded) (String.ofList decoded.text) } := by
  have hload : (ofLoader loader).load unit = pure (loader.load unit) := rfl
  rw [enterPage, hload, pure_bind]
  generalize decodeUnit o unit (loader.load unit) = decoded
  cases decoded <;> rfl

-- Pages are read in this way from a loader.
theorem read_ofLoader (o : Options) (loader : Loader) (resolver : Resolver) (name : String) :
    read o (.ofLoader loader) (loader.capacity + 1) resolver name =
      Page.read o loader resolver name := by
  have hdecoded : (do
      let bytes ← loader.load (UnitName.normalize name)
      Encoding.decode (UnitName.normalize name) bytes o.pageEncoding o.defaultEncoding) =
        decodeUnit o (UnitName.normalize name) (loader.load (UnitName.normalize name)) := rfl
  have hrun : ∀ (enter : BuildM (List Char × UnitForm)) (next : List Char × UnitForm → BuildM Page)
      (b : Builder), (enter >>= next).run b =
        match enter b with
        | .ok found b' => next found b'
        | .error d b' => .error d b' := by
    intro enter next b
    simp only [EStateM.run, bind, EStateM.bind]
    cases enter b <;> rfl
  unfold read Page.read Page.readWith
  dsimp only
  rw [readUnit_ofLoader, readAll_ofLoader, hdecoded, hrun, enterPage_ofLoader]
  generalize decodeUnit o (UnitName.normalize name) (loader.load (UnitName.normalize name)) = decoded
  cases decoded <;> rfl

theorem enterUnit_guarded : enterUnit o (s.guarded other) = enterUnit o s := by
  funext parent target origin mark
  simp only [enterUnit, load_guarded (UnitName.isNormal_resolve ..),
    locate?_guarded (UnitName.isNormal_resolve ..)]

theorem includeUnit_guarded : includeUnit o (s.guarded other) = includeUnit o s := by
  funext reader parent target origin mark
  rw [includeUnit, includeUnit, enterUnit_guarded]

theorem readLevel_guarded : readLevel o (s.guarded other) = readLevel o s := by
  funext inner root unit text form
  simp only [readLevel, includeUnit_guarded]

theorem readUnit_guarded (depth : Nat) :
    readUnit o (s.guarded other) depth = readUnit o s depth := by
  induction depth with
  | zero => rw [readUnit, readUnit]
  | succ depth ih => rw [readUnit, readUnit, readLevel_guarded, ih]

theorem readAll_guarded : readAll o (s.guarded other) = readAll o s := by
  funext reader unit text form
  rw [readAll, readAll, includeUnit_guarded]

theorem enterPage_guarded {unit : String} (h : UnitName.IsNormal unit) :
    enterPage o (s.guarded other) unit = enterPage o s unit := by
  rw [enterPage, enterPage, load_guarded h]

theorem read_guarded (o : Options) (s other : Supplier) (depth : Nat) (resolver : Resolver)
    (name : String) : read o (s.guarded other) depth resolver name = read o s depth resolver name := by
  rw [read, read, enterPage_guarded (UnitName.isNormal_normalize name), readUnit_guarded,
    readAll_guarded]

end Supplier

namespace Page

-- Units cannot be named outside of the page root. Normalizing gives a normal name, and does nothing
-- to one; so does resolving, which does not look at the base of an absolute target. A page is read
-- by asking for normal names only: what would be done at any other name makes no difference, be it
-- a failure or a change to what has been read. And the path of a unit in a directory is the root's
-- with plain segments behind it, so that what is read there is a file in that directory.
theorem units_confined (o : Options) (resolver : Resolver) :
    (∀ name, UnitName.IsNormal (UnitName.normalize name) ∧
      UnitName.normalize (UnitName.normalize name) = UnitName.normalize name) ∧
    (∀ base target, UnitName.IsNormal (UnitName.resolve base target)) ∧
    (∀ base base' target,
      UnitName.resolve base ("/" ++ target) = UnitName.resolve base' ("/" ++ target)) ∧
    (∀ loader name, Supplier.read o (.ofLoader loader) (loader.capacity + 1) resolver name =
      read o loader resolver name) ∧
    (∀ (s other : Supplier) (depth : Nat) (name : String),
      Supplier.read o (s.guarded other) depth resolver name =
        Supplier.read o s depth resolver name) ∧
    ∀ root name, ∃ parts, (∀ w ∈ parts, UnitName.IsPlain w) ∧
      Loader.pathOf root name = Path.join root (Loader.relativePath parts) ∧
      FileSystem.names (Loader.pathOf root name) =
        FileSystem.names root ++ parts.map String.ofList ∧
      ∀ files : FileSystem, ((Loader.directory root files).load name).toOption =
          (files.read (Loader.pathOf root name)).toOption ∧
        ∀ place content, files.find root = .ok (.directory place) →
          (Loader.directory root files).load name = .ok content →
            (place ++ parts.map String.ofList, content) ∈ files.files := by
  refine ⟨fun name => ⟨UnitName.isNormal_normalize name, UnitName.normalize_normalize name⟩,
    UnitName.isNormal_resolve, fun base base' target => ?_,
    fun loader => Supplier.read_ofLoader o loader resolver,
    fun s other depth => Supplier.read_guarded o s other depth resolver, fun root name => ?_⟩
  · rw [UnitName.resolve_absolute, UnitName.resolve_absolute]
  · refine ⟨UnitName.segments name.toList, UnitName.isPlain_segments _, Loader.pathOf_eq root name,
      Loader.names_pathOf root name, fun files => ⟨?_, ?_⟩⟩
    · unfold Loader.load
      dsimp only
      cases files.read (Loader.pathOf root name) <;> rfl
    · intro place content hroot hload
      exact Loader.mem_of_load_directory hroot hload

-- A page that asks for a file above the root, where there is one, next to one of the same name.
def confinedFiles : FileSystem :=
  .ofFiles "/srv"
    [("site/main.page", Utf8.ofString "<%@ include file=\"../../secret.page\" %>"),
      ("site/secret.page", Utf8.ofString "inside"), ("secret.page", Utf8.ofString "outside")]

-- The file below the root is read.
theorem units_confined_sample :
    (read {} (.directory "site" confinedFiles) (.ofLibraries []) "main.page").1.toOption.map
        (·.bindings.dependencies) = some ["site/secret.page"] ∧
      (["site", "secret.page"], Utf8.ofString "inside") ∈ confinedFiles.files := by
  have hroot : confinedFiles.find "site" = .ok (.directory ["site"]) := by
    have hbelow : confinedFiles.below? "site" = some ["site"] := by decide +kernel
    have hfollow : confinedFiles.follow [] ["site"] = .ok ["site"] := by decide +kernel
    have hthere : confinedFiles.isDirectoryAt ["site"] = true := by decide +kernel
    unfold FileSystem.find
    rw [if_neg (by decide), hbelow]
    dsimp only [bind, Except.bind]
    rw [hfollow]
    dsimp only
    rw [if_pos hthere]
    rfl
  have hload : (Loader.directory "site" confinedFiles).load "/../../secret.page" =
      .ok (Utf8.ofString "inside") := by
    have hread : confinedFiles.read "site/secret.page" = .ok (Utf8.ofString "inside") := by
      decide +kernel
    have hpath : Loader.pathOf "site" "/../../secret.page" = "site/secret.page" := by decide +kernel
    unfold Loader.load
    dsimp only
    rw [hpath, hread]
  obtain ⟨-, -, -, -, -, hpaths⟩ := units_confined {} (.ofLibraries [])
  obtain ⟨parts, -, -, hnames, hfiles⟩ := hpaths "site" "/../../secret.page"
  have hparts : parts.map String.ofList = ["secret.page"] := by
    have hpath : FileSystem.names (Loader.pathOf "site" "/../../secret.page") =
        FileSystem.names "site" ++ ["secret.page"] := by decide +kernel
    exact List.append_cancel_left (hnames.symm.trans hpath)
  have hmem := (hfiles confinedFiles).2 ["site"] _ hroot hload
  rw [hparts] at hmem
  exact ⟨by decide +kernel, hmem⟩

end Page
end PageCompiler
