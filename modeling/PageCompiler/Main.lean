import PageCompiler.CommandLine.Run

namespace PageCompiler.CommandLine

open Text.Utf8 (Bytes)

-- The files of a directory entry, under their names below the working directory. What cannot be
-- read, and what is neither a file nor a directory, is passed over.
partial def filesOf (names : List String) (entry : IO.FS.DirEntry) :
    IO (List (List String × Bytes)) := do
  let names := names ++ [entry.fileName]
  try
    match (← entry.path.symlinkMetadata).type with
    | .dir =>
      let below ← (← entry.path.readDir).toList.mapM (filesOf names)
      return below.flatten
    | .file => return [(names, (← IO.FS.readBinFile entry.path).toList)]
    | _ => return []
  catch _ => return []

def snapshot : IO FileSystem := do
  let home ← IO.currentDir
  let files ← (← home.readDir).toList.mapM (filesOf [])
  return ⟨home.toString, files.flatten⟩

-- The files that a run has added or changed.
def changed (before after : FileSystem) : List (List String × Bytes) :=
  after.files.filter fun f => before.files.lookup f.1 != some f.2

def putInPlace (file : List String × Bytes) : IO Unit := do
  IO.FS.createDirAll (Text.join "/" ("." :: file.1.dropLast))
  IO.FS.writeBinFile (Text.join "/" ("." :: file.1)) ⟨file.2.toArray⟩

def report (d : Diagnostic) : String :=
  d.code ++ "\n  " ++ d.message ++ "\n" ++ ((d.help.map fun h => "  help: " ++ h ++ "\n").getD "")

end PageCompiler.CommandLine

open PageCompiler.CommandLine in
def main (arguments : List String) : IO UInt32 := do
  let before ← snapshot
  let outcome := run before arguments
  (changed before outcome.files).forM putInPlace
  (← IO.getStdout).putStr outcome.output
  (← IO.getStderr).putStr (outcome.notes ++ String.join (outcome.diagnostics.map report))
  return outcome.exitCode.toUInt32
