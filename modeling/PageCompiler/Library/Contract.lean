import PageCompiler.Text.Blank
import PageCompiler.Text.Cut

namespace PageCompiler

open Text

-- What an action accepts as its body.
inductive BodyContent where
  | empty
  | markup
  -- Page content without raw code.
  | scriptless
  -- Text that is left to the handler.
  | verbatim
  deriving DecidableEq, Repr, Inhabited

namespace BodyContent

def ofName? : String → Option BodyContent
  | "empty" => some empty
  | "markup" | "JSP" | "jsp" => some markup
  | "no-raw-code" | "scriptless" => some scriptless
  | "opaque" | "tagdependent" => some verbatim
  | _ => none

def name : BodyContent → String
  | empty => "empty"
  | markup => "markup"
  | scriptless => "no-raw-code"
  | verbatim => "opaque"

end BodyContent

def stringClass : String := "java.lang.String"

structure AttributeContract where
  name : String
  required : Bool := false
  -- Takes raw code and immediate expressions.
  runtimeExpression : Bool := false
  typeName : String := stringClass
  -- The value is a body that the handler invokes.
  fragment : Bool := false
  deferredValue : Bool := false
  deferredValueType : Option String := none
  deferredMethod : Bool := false
  methodSignature : Option String := none
  deriving DecidableEq, Repr, Inhabited

namespace AttributeContract

def makeRequired (a : AttributeContract) : AttributeContract := { a with required := true }

def makeRuntime (a : AttributeContract) : AttributeContract := { a with runtimeExpression := true }

def ofType (a : AttributeContract) (typeName : String) : AttributeContract := { a with typeName }

def makeFragment (a : AttributeContract) : AttributeContract :=
  { a with fragment := true, typeName := "jakarta.servlet.jsp.tagext.JspFragment" }

def makeDeferredValue (a : AttributeContract) (typeName : Option String) : AttributeContract :=
  { a with deferredValue := true, deferredValueType := typeName }

def makeDeferredMethod (a : AttributeContract) (signature : String) : AttributeContract :=
  { a with deferredMethod := true, methodSignature := some signature }

end AttributeContract

namespace Signature

-- The types of a comma-separated list.
def typeList (s : List Char) : List String :=
  ((splitAll ',' s).map trim).filterMap fun t => if t.isEmpty then none else some (String.ofList t)

-- The types between the first opening and the last closing parenthesis. There is no such list when
-- the last closing one comes first.
def enclosed? (s : List Char) (ifUnclosed : List Char → List String) : Option (List String) :=
  match splitOnce? '(' s with
  | none => some []
  | some (before, after) =>
    match splitLast? ')' after with
    | some (inside, _) => some (typeList inside)
    | none => if before.contains ')' then none else some (ifUnclosed after)

-- A function signature without a closing parenthesis runs to its end.
def functionParameters? (signature : String) : Option (List String) :=
  enclosed? signature.toList typeList

-- A method signature without a closing parenthesis has no parameters.
def methodParameters? (signature : String) : Option (List String) :=
  enclosed? signature.toList fun _ => []

-- The last word in front of the parameters.
def methodName? (signature : String) : Option String :=
  let head := ((splitOnce? '(' signature.toList).map Prod.fst).getD signature.toList
  ((words head).getLast?).map String.ofList

def returnType? (signature : String) : Option String := (wordsOf signature).head?

end Signature

namespace AttributeContract

-- The result of a deferred method is void unless its signature says otherwise.
def returnType (a : AttributeContract) : String :=
  (a.methodSignature.bind Signature.returnType?).getD "void"

-- A method without a signature has no parameters.
def parameterTypes? (a : AttributeContract) : Option (List String) :=
  match a.methodSignature with
  | some signature => Signature.methodParameters? signature
  | none => some []

end AttributeContract

-- Where an exposed variable can be seen.
inductive VariableScope where
  | nested
  | atBegin
  | atEnd
  deriving DecidableEq, Repr, Inhabited

namespace VariableScope

def ofName? : String → Option VariableScope
  | "nested" | "NESTED" => some nested
  | "at-begin" | "AT_BEGIN" => some atBegin
  | "at-end" | "AT_END" => some atEnd
  | _ => none

def name : VariableScope → String
  | nested => "nested"
  | atBegin => "at-begin"
  | atEnd => "at-end"

end VariableScope

-- A variable as a library declares it: its name is given, or is the value of an attribute.
structure VariableContract where
  nameGiven : Option String := none
  nameFromAttribute : Option String := none
  className : String := stringClass
  declare : Bool := true
  scope : VariableScope := .nested
  deriving DecidableEq, Repr

-- A variable under its final name.
structure Variable where
  name : String
  className : String
  declare : Bool
  scope : VariableScope
  deriving DecidableEq, Repr

structure Capabilities where
  iteration : Bool := false
  bodyBuffering : Bool := false
  tryCatchFinally : Bool := false
  idConsumer : Bool := false
  -- One call with the body handed over.
  simple : Bool := false
  dynamicAttributes : Bool := false
  deriving DecidableEq, Repr, Inhabited

-- What a hook is told about an attribute.
inductive TagDatum where
  | literal (value : String)
  -- Known only when the page runs.
  | requestTime
  deriving DecidableEq, Repr

-- The attributes of one use of an action. A name given again replaces its value.
abbrev TagData := List (String × TagDatum)

namespace TagData

def insert (data : TagData) (name : String) (value : TagDatum) : TagData :=
  (name, value) :: data.filter fun entry => entry.1 != name

def get? (data : TagData) (name : String) : Option TagDatum := data.lookup name

def literal? (data : TagData) (name : String) : Option String :=
  match data.get? name with
  | some (.literal v) => some v
  | _ => none

end TagData

-- What a library adds to the checks of one of its tags.
structure TagHook where
  -- Why a use is not valid.
  validate : TagData → List String
  -- Variables beyond the declared ones.
  exposed : TagData → List Variable

structure Tag where
  name : String
  handlerClass : String
  bodyContent : BodyContent := .markup
  attributes : List AttributeContract := []
  exposed : List VariableContract := []
  -- Attributes that are not declared are accepted.
  dynamicAttributes : Bool := false
  capabilities : Capabilities := {}
  hook : Option TagHook := none
  deriving Inhabited

def Tag.find? (t : Tag) (name : String) : Option AttributeContract :=
  t.attributes.find? fun a => a.name == name

-- A function that expressions can call.
structure Function where
  name : String
  className : String
  signature : String
  deriving DecidableEq, Repr

namespace Function

def methodName (f : Function) : String := (Signature.methodName? f.signature).getD f.name

def parameterTypes? (f : Function) : Option (List String) :=
  Signature.functionParameters? f.signature

end Function

-- Judges the markup form of a page, given the prefix and the uri it is bound to.
abbrev LibraryValidator := (space uri page : String) → List String

structure Library where
  uri : String
  shortName : String
  tags : List Tag := []
  functions : List Function := []
  validator : Option LibraryValidator := none
  -- The file the library was read from.
  origin : Option String := none
  deriving Inhabited

namespace Library

def tag? (l : Library) (name : String) : Option Tag := l.tags.find? fun t => t.name == name

def function? (l : Library) (name : String) : Option Function :=
  l.functions.find? fun f => f.name == name

-- A tag or function declared again takes the place of the earlier one.
def addTag (l : Library) (t : Tag) : Library :=
  { l with tags := (l.tags.filter fun u => u.name != t.name) ++ [t] }

def addFunction (l : Library) (f : Function) : Library :=
  { l with functions := (l.functions.filter fun g => g.name != f.name) ++ [f] }

end Library

-- How a page names a library.
inductive LibraryRef where
  | uri (uri : String)
  | tagDirectory (directory : String)
  deriving DecidableEq, Repr

namespace LibraryRef

def directoryUri (directory : String) : String := "urn:pagec:tagdir:" ++ directory

-- The key under which one page keeps the library.
def key : LibraryRef → String
  | .uri name => name
  | .tagDirectory directory => directoryUri (dropTrailing '/' directory)

def written : LibraryRef → String
  | .uri s | .tagDirectory s => s

end LibraryRef
end PageCompiler
