import PageCompiler.Text.Cut

namespace PageCompiler.CommandLine

open Text

inductive UsageError where
  | unknownOption (written : String)
  | missingValue (option : String)
  | emptyValue
  | unneededValue (option : String)
  | repeated (option : String)
  | unexpectedOperand (operand : String)
  | missingOperand
  | unknownCommand (name : String)
  | missingCommand
  deriving DecidableEq, Repr

def UsageError.message : UsageError → String
  | unknownOption written => "unknown option '" ++ written ++ "'"
  | missingValue option => "option '--" ++ option ++ "' needs a value"
  | emptyValue => "a value is empty"
  | unneededValue option => "option '--" ++ option ++ "' takes no value"
  | repeated option => "option '--" ++ option ++ "' is given twice"
  | unexpectedOperand operand => "unexpected argument '" ++ operand ++ "'"
  | missingOperand => "a file is missing"
  | unknownCommand name => "unknown command '" ++ name ++ "'"
  | missingCommand => "a command is missing"

-- Why the arguments ask for no work.
inductive Ending where
  | help
  | version
  | misused (error : UsageError)
  deriving DecidableEq, Repr

inductive OptionEffect where
  | flag
  | value
  | help
  | version
  deriving DecidableEq, Repr

structure OptionForm where
  -- The name behind two dashes.
  name : String
  -- The letter behind one dash.
  letter : Option Char := none
  effect : OptionEffect
  deriving DecidableEq, Repr

-- What the arguments of one level have told so far.
structure Reading where
  -- Options with their values; a flag has the empty one.
  options : List (String × String) := []
  operands : List String := []
  -- An option whose value comes next.
  awaiting : Option String := none
  -- Two dashes have been passed.
  literal : Bool := false
  deriving DecidableEq, Repr

namespace Reading

def value? (r : Reading) (name : String) : Option String := r.options.lookup name

def has (r : Reading) (name : String) : Bool := (r.value? name).isSome

def add (r : Reading) (name value : String) : Except Ending Reading :=
  if r.has name then .error (.misused (.repeated name))
  else .ok { r with options := r.options ++ [(name, value)], awaiting := none }

def addValue (r : Reading) (name value : String) : Except Ending Reading :=
  if value.isEmpty then .error (.misused .emptyValue) else r.add name value

def addOperand (r : Reading) (limit : Nat) (operand : String) : Except Ending Reading :=
  if r.operands.length < limit then
    if operand.isEmpty then .error (.misused .emptyValue)
    else .ok { r with operands := r.operands ++ [operand] }
  else .error (.misused (.unexpectedOperand operand))

-- No option waits for its value.
def settled (r : Reading) : Except Ending Reading :=
  match r.awaiting with
  | some name => .error (.misused (.missingValue name))
  | none => .ok r

-- An option, with the value that is attached to it.
def take (r : Reading) (form : OptionForm) (attached : Option String) : Except Ending Reading :=
  match form.effect, attached with
  | .value, some v => r.addValue form.name v
  | .value, none => .ok { r with awaiting := some form.name }
  | _, some _ => .error (.misused (.unneededValue form.name))
  | .flag, none => r.add form.name ""
  | .help, none => .error .help
  | .version, none => .error .version

-- An option written with its name, with an equals sign in front of an attached value.
def takeLong (r : Reading) (forms : List OptionForm) (written : String) : Except Ending Reading :=
  let (name, attached) :=
    match cutString? '=' written with
    | some (name, v) => (name, some v)
    | none => (written, none)
  match forms.find? fun f => f.name == name with
  | some form => r.take form attached
  | none => .error (.misused (.unknownOption ("--" ++ name)))

-- The value attached to a letter. An equals sign may stand in front of it.
def attachedTo : List Char → Option String
  | [] => none
  | '=' :: v => some (String.ofList v)
  | v => some (String.ofList v)

-- Options written with their letters. What stands behind a letter that takes a value is the value.
def takeLetters (r : Reading) (forms : List OptionForm) : List Char → Except Ending Reading
  | [] => .ok r
  | c :: rest =>
    match forms.find? fun f => f.letter == some c with
    | none => .error (.misused (.unknownOption ("-" ++ c.toString)))
    | some form =>
      if form.effect = .value then r.take form (attachedTo rest)
      else do (← r.take form none).takeLetters forms rest

-- Takes one argument up, where at most `limit` operands are expected.
def step (forms : List OptionForm) (limit : Nat) (r : Reading) (argument : String) :
    Except Ending Reading :=
  if r.literal then r.addOperand limit argument
  else
    match argument.toList with
    | ['-', '-'] => do return { (← r.settled) with literal := true }
    | '-' :: '-' :: name => do (← r.settled).takeLong forms (String.ofList name)
    | '-' :: c :: letters => do (← r.settled).takeLetters forms (c :: letters)
    | _ =>
      match r.awaiting with
      | some name => r.addValue name argument
      | none => r.addOperand limit argument

def ofArguments (forms : List OptionForm) (limit : Nat) (arguments : List String) :
    Except Ending Reading := do
  (← arguments.foldlM (step forms limit) {}).settled

end Reading

inductive Command where
  | compile (file : String) (xml : Bool) (out : Option String) (sourceMap : Bool)
  | check (root : String)
  | tree (file : String) (outline : Bool)
  | lineMap (file : String)
  deriving DecidableEq, Repr

-- What is asked for: a command, and the file with the options of the compilation.
structure Arguments where
  config : Option String
  command : Command
  deriving DecidableEq, Repr

namespace Arguments

-- Options that every command has.
def shared : List OptionForm :=
  [{ name := "config", effect := .value }, { name := "help", letter := some 'h', effect := .help }]

def outermost : List OptionForm :=
  shared ++ [{ name := "version", letter := some 'V', effect := .version }]

def commandNames : List String := ["compile", "check", "ast", "line-map", "help"]

-- The options of a command besides the shared ones.
def formsOf : String → List OptionForm
  | "compile" =>
    [{ name := "xml", effect := .flag }, { name := "out", letter := some 'o', effect := .value },
      { name := "smap", effect := .flag }]
  | "ast" => [{ name := "outline", effect := .flag }]
  | _ => []

def file (r : Reading) : Except Ending String :=
  match r.operands with
  | f :: _ => .ok f
  | [] => .error (.misused .missingOperand)

def commandOf (name : String) (r : Reading) : Except Ending Command :=
  match name with
  | "compile" => do
    return .compile (← file r) (r.has "xml") (r.value? "out") (r.has "smap")
  | "check" => .ok (.check (r.operands.head?.getD "."))
  | "ast" => do return .tree (← file r) (r.has "outline")
  | "line-map" => do return .lineMap (← file r)
  | _ => .error (.misused (.unknownCommand name))

-- Help may name one command.
def helpFor : List String → Ending
  | [] => .help
  | name :: rest =>
    if commandNames.contains name then
      match rest with
      | [] => .help
      | other :: _ => .misused (.unknownCommand other)
    else .misused (.unknownCommand name)

-- Reads the arguments behind the command. A configuration given there counts before one given in
-- front of the command.
def behindCommand (before : Reading) (name : String) (rest : List String) :
    Except Ending Arguments :=
  if name = "help" then .error (helpFor rest)
  else if commandNames.contains name then do
    let r ← Reading.ofArguments (shared ++ formsOf name) 1 rest
    return ⟨(r.value? "config").or (before.value? "config"), ← commandOf name r⟩
  else .error (.misused (.unknownCommand name))

-- Whether an argument is taken up on the outermost level rather than as the command.
def isOuter (r : Reading) (argument : String) : Bool :=
  r.awaiting.isSome || r.literal || (begins "-" argument && argument != "-")

def parseFrom (r : Reading) : List String → Except Ending Arguments
  | [] => do
    let _ ← r.settled
    .error (.misused .missingCommand)
  | argument :: rest =>
    if isOuter r argument then do parseFrom (← r.step outermost 0 argument) rest
    else behindCommand r argument rest

def parse (arguments : List String) : Except Ending Arguments := parseFrom {} arguments

end Arguments
end PageCompiler.CommandLine
