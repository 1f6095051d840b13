import PageCompiler.ClassText.Class
import PageCompiler.Reading.Unit

namespace PageCompiler

def CheckedPage.ofUnit (o : Options) (loader : Loader) (resolver : Resolver) (name : String) :
    Except Diagnostic CheckedPage × Resolver :=
  match Page.read o loader resolver name with
  | (page, resolver) => (page >>= fun p => p.check o, resolver)

def CompiledPage.ofUnit (o : Options) (loader : Loader) (resolver : Resolver) (name : String) :
    Except Diagnostic CompiledPage × Resolver :=
  match CheckedPage.ofUnit o loader resolver name with
  | (checked, resolver) => (checked >>= fun c => c.generate o, resolver)

-- The page root and the unit name of a page file: its directory is the root.
def Path.splitPage (path : String) : Except Diagnostic (String × String) :=
  match Path.splitPage? path with
  | some split => .ok split
  | none => .error (.unplaced "parse" (.unreadable path "not a file name"))

-- Runs a reading of units on the unit of a page file.
def Path.withPage (path : String) (files : FileSystem) (resolver : Resolver)
    (run : Loader → Resolver → String → Except Diagnostic α × Resolver) :
    Except Diagnostic α × Resolver :=
  match splitPage path with
  | .error d => (.error d, resolver)
  | .ok (root, name) => run (.directory root files) resolver name

def CompiledPage.ofFile (o : Options) (resolver : Resolver) (path : String) :
    Except Diagnostic CompiledPage × Resolver :=
  Path.withPage path resolver.files resolver (CompiledPage.ofUnit o)

def Page.ofFile (o : Options) (resolver : Resolver) (path : String) :
    Except Diagnostic Page × Resolver :=
  Path.withPage path resolver.files resolver (Page.read o)

end PageCompiler
