import PageCompiler.Site.Path
import PageCompiler.Text.Utf8

namespace PageCompiler

open Text
open Text.Utf8 (Bytes)

inductive FileError where
  | notFound
  | notDirectory
  | isDirectory
  | notText
  deriving DecidableEq, Repr

def FileError.message : FileError → String
  | notFound => "No such file or directory (os error 2)"
  | notDirectory => "Not a directory (os error 20)"
  | isDirectory => "Is a directory (os error 21)"
  | notText => "stream did not contain valid UTF-8"

structure FileSystem where
  -- The absolute path of the home.
  home : String
  -- The files by their names below the home. A directory is there as long as a file is in it.
  files : List (List String × Bytes)
  deriving Repr, Inhabited

namespace FileSystem

inductive Entry where
  | file (names : List String) (content : Bytes)
  | directory (names : List String)
  deriving Repr

def names (path : String) : List String :=
  (split '/' path).filter fun s => !s.isEmpty && s != "."

def isDirectoryAt (fs : FileSystem) (place : List String) : Bool :=
  place.isEmpty || fs.files.any fun f => place.isPrefixOf f.1 && place.length < f.1.length

-- Follows a path name by name. Two dots lead up, but not out of the home.
def follow (fs : FileSystem) : List String → List String → Except FileError (List String)
  | place, [] => .ok place
  | place, name :: rest =>
    if fs.isDirectoryAt place then
      if name = ".." then
        if place.isEmpty then .error .notFound else fs.follow place.dropLast rest
      else fs.follow (place ++ [name]) rest
    else if (fs.files.lookup place).isSome then .error .notDirectory
    else .error .notFound

-- The names of a path below the home. Other absolute paths are not there.
def below? (fs : FileSystem) (path : String) : Option (List String) :=
  if Path.isAbsolute path then
    let home := names fs.home
    let all := names path
    if home.isPrefixOf all then some (all.drop home.length) else none
  else some (names path)

def find (fs : FileSystem) (path : String) : Except FileError Entry :=
  if path.isEmpty then .error .notFound
  else
    match fs.below? path with
    | none => .error .notFound
    | some parts => do
      let place ← fs.follow [] parts
      if fs.isDirectoryAt place then return .directory place
      match fs.files.lookup place with
      | none => .error .notFound
      | some content =>
        if ends "/" path || ends "/." path then .error .notDirectory
        else return .file place content

def holds (fs : FileSystem) (path : String) : Bool := (fs.find path).toOption.isSome

def isDirectory (fs : FileSystem) (path : String) : Bool :=
  match fs.find path with
  | .ok (.directory _) => true
  | _ => false

def read (fs : FileSystem) (path : String) : Except FileError Bytes := do
  match ← fs.find path with
  | .file _ content => return content
  | .directory _ => .error .isDirectory

def readText (fs : FileSystem) (path : String) : Except FileError String := do
  match Utf8.toString? (← fs.read path) with
  | some s => return s
  | none => .error .notText

-- The absolute path without dots, of an entry that is there.
def canonical? (fs : FileSystem) (path : String) : Option String :=
  match fs.find path with
  | .ok (.file place _) | .ok (.directory place) =>
    some (fs.home ++ String.join (place.map fun n => "/" ++ n))
  | .error _ => none

-- The names in a directory, in order.
def entries (fs : FileSystem) (place : List String) : List String :=
  let inside := fs.files.filterMap fun f =>
    if place.isPrefixOf f.1 then (f.1.drop place.length).head? else none
  inside.eraseDups.mergeSort fun a b => decide (a ≤ b)

-- The paths of the files in a directory; nothing when it is no directory.
def list (fs : FileSystem) (path : String) : Except FileError (List String) := do
  match ← fs.find path with
  | .directory place => return (fs.entries place).map (Path.join path)
  | .file .. => .error .notDirectory

-- The files below the directory `place`, down to the given depth, in the order of their names.
def filesBelow (fs : FileSystem) : Nat → (path : String) → (place : List String) → List String
  | 0, _, _ => []
  | depth + 1, path, place =>
    (fs.entries place).flatMap fun name =>
      let path := Path.join path name
      if fs.isDirectoryAt (place ++ [name]) then fs.filesBelow depth path (place ++ [name])
      else [path]

-- Every file below a path, and the path itself when it is a file. A path is no deeper than its
-- names are many.
def walk (fs : FileSystem) (path : String) : List String :=
  match fs.find path with
  | .ok (.file ..) => [path]
  | .ok (.directory place) =>
    fs.filesBelow ((fs.files.map fun f => f.1.length).foldl max 0 + 1) path place
  | .error _ => []

-- Two dots take back the name in front of them. Nothing leads out of the home.
def settle : (place parts : List String) → Option (List String)
  | place, [] => some place
  | place, name :: rest =>
    if name = ".." then if place.isEmpty then none else settle place.dropLast rest
    else settle (place ++ [name]) rest

-- Whether a name on the way to a place is that of a file.
def blocked (fs : FileSystem) (place : List String) : Bool :=
  fs.files.any fun f => f.1.isPrefixOf place && f.1.length < place.length

-- Puts a file in place. The directories on the way to it are made.
def write (fs : FileSystem) (path : String) (content : Bytes) : Except FileError FileSystem :=
  match (fs.below? path).bind (settle []) with
  | none => .error .notFound
  | some place =>
    if fs.blocked place then .error .notDirectory
    else if fs.isDirectoryAt place then .error .isDirectory
    else .ok { fs with files := (fs.files.filter fun f => f.1 != place) ++ [(place, content)] }

def ofFiles (home : String) (files : List (String × Bytes)) : FileSystem :=
  ⟨home, files.map fun (path, content) => (names path, content)⟩

end FileSystem
end PageCompiler
