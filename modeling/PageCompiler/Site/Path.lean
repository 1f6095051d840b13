import PageCompiler.Text.Cut

namespace PageCompiler.Path

open Text

-- The path, held in reverse, without the slashes and the single dots at its end. A lone slash and
-- a lone dot stay.
def trimTail : List Char → List Char
  | '/' :: c :: rest => trimTail (c :: rest)
  | '.' :: '/' :: rest => trimTail ('/' :: rest)
  | s => s

-- The last name of a path and what stands in front of it, both in reverse.
def splitTail (s : List Char) : List Char × List Char :=
  (s.takeWhile (· != '/'), s.dropWhile (· != '/'))

-- The path one level up. The root and the empty path have none.
def parent? (path : String) : Option String :=
  match trimTail path.toList.reverse with
  | [] | ['/'] => none
  | s => some (String.ofList (trimTail (splitTail s).2).reverse)

-- The last name, unless it is a pair of dots or missing.
def fileName? (path : String) : Option String :=
  match (splitTail (trimTail path.toList.reverse)).1 with
  | [] | ['.'] | ['.', '.'] => none
  | name => some (String.ofList name.reverse)

-- A name is cut at its last dot, unless that is its first character.
def splitExtension (name : String) : String × Option String :=
  match splitLast? '.' name.toList with
  | none | some ([], _) => (name, none)
  | some (stem, ext) => (String.ofList stem, some (String.ofList ext))

def extension? (path : String) : Option String :=
  (fileName? path).bind fun name => (splitExtension name).2

def stem? (path : String) : Option String :=
  (fileName? path).map fun name => (splitExtension name).1

def isAbsolute (path : String) : Bool := begins "/" path

-- A path taken from a base; an absolute one stands for itself.
def join (base path : String) : String :=
  if isAbsolute path || base.isEmpty then path
  else if ends "/" base then base ++ path
  else base ++ "/" ++ path

-- The directory and the unit name of a page file.
def splitPage? (path : String) : Option (String × String) :=
  (fileName? path).map fun name => ((parent? path).getD ".", "/" ++ name)

end PageCompiler.Path
