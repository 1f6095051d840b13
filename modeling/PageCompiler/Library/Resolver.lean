import PageCompiler.Library.TagFile
import PageCompiler.Options
import PageCompiler.Site.FileSystem

-- Libraries read from files are kept under the canonical path of the file and are read once.
namespace PageCompiler

open Text

-- What a resolved library is an instance of.
inductive LibrarySource where
  | registered (uri : String)
  | file (path : String)
  deriving DecidableEq, Repr

structure Resolver where
  registered : List (String × Library) := []
  mapped : List (String × String) := []
  searchRoots : List String := []
  files : FileSystem
  -- Libraries read so far, by canonical path.
  cache : List (String × Library) := []
  -- Descriptor paths by library uri, once the search roots have been walked.
  index : Option (List (String × String)) := none
  deriving Inhabited

namespace Resolver

-- A resolver for the files the options speak of.
def ofOptions (o : Options) (files : FileSystem) : Resolver :=
  { mapped := o.libraries, searchRoots := o.searchRoots, files }

-- Puts libraries in front of the files. Of two with one uri the later counts.
def register (r : Resolver) (libraries : List Library) : Resolver :=
  { r with registered := (libraries.reverse.map fun l => (l.uri, l)) ++ r.registered }

-- A resolver that knows nothing but the given libraries.
def ofLibraries (libraries : List Library) : Resolver :=
  ({ files := ⟨"", []⟩ } : Resolver).register libraries

def isDescriptor (path : String) : Bool :=
  let name := (Path.fileName? path).getD ""
  [".tld.yaml", ".tld.yml", ".tld.json"].any fun tail => ends tail name

def unreadable (path : String) (e : FileError) : Diagnostic :=
  .unplaced "taglib" (.unreadable path e.message)

def readDescriptor (files : FileSystem) (path : String) : Except Diagnostic Descriptor :=
  match files.readText path with
  | .error e => .error (unreadable path e)
  | .ok text => Descriptor.read (.ofPath path) text path

def readLibrary (files : FileSystem) (path : String) : Except Diagnostic Library := do
  (← readDescriptor files path).toLibrary (some path)

def addTagFile (files : FileSystem) (directory : String) (library : Library) (path : String) :
    Except Diagnostic Library :=
  match Path.stem? path with
  | none => .ok library
  | some name =>
    match files.readText path with
    | .error e => .error (unreadable path e)
    | .ok text =>
      match TagFile.contract directory name text with
      | .error reason => .error (Descriptor.invalid path reason)
      | .ok tag => .ok (library.addTag tag)

-- The library of the tag files in a directory, taken in the order of their names.
def readDirectory (files : FileSystem) (directory path : String) : Except Diagnostic Library :=
  match files.list path with
  | .error e => .error (unreadable path e)
  | .ok entries =>
    let start : Library :=
      { uri := LibraryRef.directoryUri directory, shortName := TagFile.shortName directory
        origin := some path }
    (entries.filter fun p => Path.extension? p == some "tag").foldlM
      (addTagFile files directory) start

-- The library kept for a path, or else the one that `load` reads, which is then kept.
def load (r : Resolver) (path : String)
    (load : FileSystem → String → Except Diagnostic Library) :
    Except Diagnostic (Library × LibrarySource) × Resolver :=
  let key := (r.files.canonical? path).getD path
  match r.cache.lookup key with
  | some library => (.ok (library, .file key), r)
  | none =>
    match load r.files key with
    | .error d => (.error d, r)
    | .ok library => (.ok (library, .file key), { r with cache := r.cache ++ [(key, library)] })

-- Descriptors below the search roots by their uri; the first one of a uri counts, and a descriptor
-- that cannot be read is passed over.
def buildIndex (r : Resolver) : List (String × String) :=
  let paths := r.searchRoots.flatMap fun root => (r.files.walk root).filter isDescriptor
  paths.foldl
    (fun index path =>
      match readDescriptor r.files path with
      | .ok d => if (index.lookup d.uri).isSome then index else index ++ [(d.uri, path)]
      | .error _ => index)
    []

-- The first place below the search roots where the path is there.
def underRoots? (r : Resolver) (path : String) : Option String :=
  let path := dropLeading '/' path
  (r.searchRoots.map fun root => Path.join root path).find? r.files.holds

def some? : Except Diagnostic α → Except Diagnostic (Option α) := Except.map some

def resolveUri (r : Resolver) (uri : String) :
    Except Diagnostic (Option (Library × LibrarySource)) × Resolver :=
  let fromFile (path : String) :=
    match r.load path readLibrary with
    | (found, r) => (some? found, r)
  match r.mapped.lookup uri with
  | some path => fromFile path
  | none =>
    match (if isDescriptor uri then r.underRoots? uri else none) with
    | some path => fromFile path
    | none =>
      let index := r.index.getD r.buildIndex
      let r := { r with index := some index }
      match index.lookup uri with
      | none => (.ok none, r)
      | some path =>
        match r.load path readLibrary with
        | (found, r) => (some? found, r)

def resolveDirectory (r : Resolver) (directory : String) :
    Except Diagnostic (Option (Library × LibrarySource)) × Resolver :=
  let directory := dropTrailing '/' directory
  match (r.underRoots? directory).filter r.files.isDirectory with
  | none => (.ok none, r)
  | some path =>
    match r.load path fun files key => readDirectory files directory key with
    | (found, r) => (some? found, r)

-- The library of a reference, with what it is an instance of; nothing when none is known.
def locate (r : Resolver) (ref : LibraryRef) :
    Except Diagnostic (Option (Library × LibrarySource)) × Resolver :=
  match r.registered.lookup ref.key with
  | some library => (.ok (some (library, .registered ref.key)), r)
  | none =>
    match ref with
    | .uri uri => r.resolveUri uri
    | .tagDirectory directory => r.resolveDirectory directory

def resolve (r : Resolver) (ref : LibraryRef) : Except Diagnostic (Option Library) × Resolver :=
  match r.locate ref with
  | (found, r) => (found.map fun f => f.map Prod.fst, r)

end Resolver
end PageCompiler
