import PageCompiler.CommandLine.Arguments
import PageCompiler.Compilation
import PageCompiler.Options
import PageCompiler.Page.Outline
import PageCompiler.Site.FileSystem

namespace PageCompiler.Options

-- Takes the relative paths of the options from a base.
def rebase (o : Options) (base : String) : Options :=
  { o with
    searchRoots := o.searchRoots.map (Path.join base)
    libraries := o.libraries.map fun (uri, path) => (uri, Path.join base path) }

def ofFile (files : FileSystem) (path : String) : Except Diagnostic Options :=
  match files.readText path with
  | .error e => .error (.unplaced "config" (.unreadable path e.message))
  | .ok text => do
    let o ← read (.ofPath path) text
    return match Path.parent? path with
      | some base => o.rebase base
      | none => o

end PageCompiler.Options

namespace PageCompiler.CommandLine

open Text

-- All that can be seen of a run.
structure Outcome where
  exitCode : Nat := 0
  output : String := ""
  -- Written beside the output, before the diagnostics.
  notes : String := ""
  diagnostics : List Diagnostic := []
  -- The files after the run.
  files : FileSystem

namespace Outcome

def failure (files : FileSystem) (d : Diagnostic) : Outcome :=
  { exitCode := 1, diagnostics := [d], files }

def ofExcept (files : FileSystem) : Except Diagnostic Outcome → Outcome
  | .ok outcome => outcome
  | .error d => failure files d

end Outcome

def version : String := "pagec 0.1.0\n"

def usage : String :=
  "Usage: pagec [--config FILE] COMMAND\n\n" ++
    "  compile FILE [--xml] [-o, --out DIR] [--smap]   compile a page into a class\n" ++
    "  check [DIR]                                     check every page below a directory\n" ++
    "  ast FILE [--outline]                            show the tree of a page\n" ++
    "  line-map FILE                                   show the line map of a page\n"

-- Where the class of a page goes: below `dir`, in the directory of its package.
def classFile (dir : String) (page : CompiledPage) (extension : String) : String :=
  Path.join ((split '.' page.package).foldl Path.join dir) (page.className ++ extension)

-- Writes a text, and says how the files are afterwards.
def writeText (files : FileSystem) (path content : String) : FileSystem × Option Diagnostic :=
  match files.write path (Utf8.ofString content) with
  | .ok files => (files, none)
  | .error e => (files, some (.unplaced "output" (.unreadable path e.message)))

-- Writes texts one after the other, up to the first that fails.
def writeTexts : FileSystem → List (String × String) → FileSystem × Option Diagnostic
  | files, [] => (files, none)
  | files, (path, content) :: rest =>
    match writeText files path content with
    | (files, none) => writeTexts files rest
    | (files, some d) => (files, some d)

def writtenNote (page : CompiledPage) (path : String) : String :=
  "compiled " ++ page.qualifiedName ++ " -> " ++ path ++ " (" ++ toString page.lineMap.size ++
    " line entries)\n"

def writeClass (files : FileSystem) (dir : String) (page : CompiledPage) (sourceMap : Bool) :
    Outcome :=
  let path := classFile dir page ".java"
  let texts :=
    (path, page.source) :: if sourceMap then [(classFile dir page ".smap", page.smap)] else []
  match writeTexts files texts with
  | (files, some d) => .failure files d
  | (files, none) => { notes := writtenNote page path, files }

def compile (files : FileSystem) (o : Options) (file : String) (xml : Bool) (out : Option String)
    (sourceMap : Bool) : Except Diagnostic Outcome := do
  let o := if xml then { o with forceStrict := some true } else o
  let page ← (CompiledPage.ofFile o (.ofOptions o files) file).1
  return match out with
    | some dir => writeClass files dir page sourceMap
    | none => { output := page.source, files }

def pageExtensions : List String := ["page", "pagx", "jsp", "jspx"]

def isPage (path : String) : Bool :=
  ((Path.extension? path).map fun e => pageExtensions.contains e).getD false

-- The unit name of a file below the page root: the names behind those of the root, with backslashes
-- read as slashes. A root that is itself the file has no name left.
def unitName (root path : String) : String :=
  let name := join "/" ((FileSystem.names path).drop (FileSystem.names root).length)
  "/" ++ String.ofList (name.toList.map fun c => if c = '\\' then '/' else c)

structure CheckCount where
  passed : Nat := 0
  failures : List Diagnostic := []
  resolver : Resolver

-- Compiles one page more. The libraries read for one page are there for the next.
def checkPage (o : Options) (root : String) (count : CheckCount) (path : String) : CheckCount :=
  match
    CompiledPage.ofUnit o (.directory root count.resolver.files) count.resolver (unitName root path)
  with
  | (.ok _, resolver) => { count with passed := count.passed + 1, resolver }
  | (.error d, resolver) => { count with failures := count.failures ++ [d], resolver }

def summary (passed failed : Nat) : String :=
  (if failed = 0 then "ok" else "FAILED") ++ ": " ++ toString passed ++ " page(s) passed, " ++
    toString failed ++ " failed\n"

def check (files : FileSystem) (o : Options) (root : String) : Outcome :=
  let o := if o.searchRoots.isEmpty then { o with searchRoots := [root] } else o
  let count := ((files.walk root).filter isPage).foldl (checkPage o root)
    { resolver := .ofOptions o files }
  { exitCode := if count.failures.isEmpty then 0 else 1
    output := summary count.passed count.failures.length
    diagnostics := count.failures
    files }

def showTree (files : FileSystem) (o : Options) (file : String) (outline : Bool) :
    Except Diagnostic Outcome := do
  let page ← (Page.ofFile o (.ofOptions o files) file).1
  let output :=
    if outline then String.join ((page.tree.outline {} Tree.root).map fun line => line ++ "\n")
    else page.tree.dump Tree.root
  return { output, files }

def showLineMap (files : FileSystem) (o : Options) (file : String) : Except Diagnostic Outcome := do
  let page ← (CompiledPage.ofFile o (.ofOptions o files) file).1
  return { output := page.lineMap.json ++ "\n", files }

def optionsOf (files : FileSystem) : Option String → Except Diagnostic Options
  | some path => Options.ofFile files path
  | none => .ok {}

def runCommand (files : FileSystem) (o : Options) : Command → Except Diagnostic Outcome
  | .compile file xml out sourceMap => compile files o file xml out sourceMap
  | .check root => .ok (check files o root)
  | .tree file outline => showTree files o file outline
  | .lineMap file => showLineMap files o file

-- Runs the command line on files.
def run (files : FileSystem) (arguments : List String) : Outcome :=
  match Arguments.parse arguments with
  | .error .help => { output := usage, files }
  | .error .version => { output := version, files }
  | .error (.misused e) => { exitCode := 2, notes := "error: " ++ e.message ++ "\n", files }
  | .ok a =>
    .ofExcept files do
      let o ← optionsOf files a.config
      runCommand files o a.command

end PageCompiler.CommandLine
