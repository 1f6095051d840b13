import PageCompiler.ClassText.LineMap
import PageCompiler.ClassText.Literal
import PageCompiler.ClassText.Names
import PageCompiler.Mark
import PageCompiler.Text.Size

-- What a statement does to variables, pushed bodies, pools, function maps and deferred bodies can
-- be read off it, and so can the fields it declares; its text is a function of it.
namespace PageCompiler.ClassText

open Text

-- A value that is handed to a method of the class or of a handler.
inductive Operand where
  | code (text : String)
  -- A constant character array.
  | charArray (index : Nat)
  -- The value of an expression now; the map holds the functions it calls.
  | evaluate (source typeName : String) (functions : Option Nat)
  -- An expression that is evaluated later.
  | valueExpression (source typeName : String) (functions : Option Nat)
  | methodExpression (source returns : String) (parameters : List String) (functions : Option Nat)
  -- A deferred body by its number, with the handler that declares it.
  | deferredBody (number : Nat) (handler count : String)
  deriving DecidableEq, Repr

def classArray (types : List String) : String :=
  "new java.lang.Class[] \x7b " ++ join ", " (types.map (· ++ ".class")) ++ " \x7d"

def functionsText (functions : Option Nat) : String :=
  (functions.map Names.functionField).getD "null"

namespace Operand

def null : Operand := .code "null"

def text : Operand → String
  | code text => text
  | charArray index => Names.charArray index
  | evaluate source typeName functions =>
    "(" ++ typeName ++ ") " ++ Names.runtime ++ ".evaluate(" ++ quote source ++ ", " ++
      boxedType typeName ++ ".class, " ++ Names.context ++ ", " ++ functionsText functions ++ ")"
  | valueExpression source typeName functions =>
    Names.runtime ++ ".createValueExpression(" ++ quote source ++ ", " ++ boxedType typeName ++
      ".class, " ++ Names.context ++ ", " ++ functionsText functions ++ ")"
  | methodExpression source returns parameters functions =>
    Names.runtime ++ ".createMethodExpression(" ++ quote source ++ ", " ++ boxedType returns ++
      ".class, " ++ classArray parameters ++ ", " ++ Names.context ++ ", " ++
      functionsText functions ++ ")"
  | deferredBody number handler count =>
    "new " ++ Names.helper ++ "(" ++ toString number ++ ", " ++ Names.context ++ ", " ++ handler ++
      ", " ++ count ++ ")"

end Operand

-- How a method is left when the rest of the page is skipped.
inductive Leave where
  -- The service method.
  | returns
  -- A method that was split off; its caller leaves too.
  | returnsTrue
  -- A deferred body.
  | throws
  deriving DecidableEq, Repr

def Leave.text : Leave → String
  | returns => "return;"
  | returnsTrue => "return true;"
  | throws => "throw new " ++ Names.skipPage ++ "();"

-- A function that expressions call by its qualified name.
structure MappedFunction where
  qualifiedName : String
  className : String
  method : String
  parameterTypes : List String
  deriving DecidableEq, Repr

def MappedFunction.text (f : MappedFunction) : String :=
  "\x7b " ++ quote f.qualifiedName ++ ", " ++ f.className ++ ".class, " ++ quote f.method ++ ", " ++
    classArray f.parameterTypes ++ " \x7d"

inductive Statement where
  | code (text : String)
  -- A line of the page's own code.
  | raw (text : String)
  | write (value : Operand)
  | writeEscaped (value : Operand)
  | print (source : String)
  -- A variable without a value yet.
  | declare (typeName name : String)
  | hold (name : String) (value : Operand)
  -- Keeps a variable's value in a copy, which may be declared by that.
  | save (newOf : Option String) (copy name : String)
  | restore (name copy : String)
  -- Fetches a variable from the page context.
  | sync (typeName name : String)
  | pushBody
  | popBody
  | countUp (count : String)
  | countDown (count : String)
  -- Takes the text of a pushed body.
  | capture (name : String) (trim : Bool)
  -- Gets a handler, from a pool if there is one.
  | acquire (typeName handler : String) (pool : Option String)
  | reuse (pool handler : String)
  | set (handler setter : String) (value : Operand)
  | setDynamic (handler name : String) (value : Operand)
  | setBody (handler : String) (value : Operand)
  | instantiate (name typeName : String) (className : Operand)
  | setProperty (bean property : String) (value : Operand)
  | includePage (page : Operand) (params : List Operand) (flush : Bool)
  | forwardPage (page : Operand) (params : List Operand)
  | startPlugin (kind className base : Operand) (extra params : List Operand)
  | leave (style : Leave)
  -- Fields of the class.
  | declareFunctions (index : Nat) (functions : List MappedFunction)
  | declareArray (index : Nat) (text : String)
  | declarePool (pool : String)
  | initPool (pool : String)
  | releasePool (pool : String)
  -- Where a deferred body is called by its number.
  | caseLabel (number : Nat)
  deriving DecidableEq, Repr

-- A list of values as an array; none is written as null.
def stringArray (values : List Operand) : String :=
  if values.isEmpty then "null"
  else "new java.lang.String[] \x7b " ++ join ", " (values.map Operand.text) ++ " \x7d"

-- An address with request parameters.
def address (page : Operand) (params : List Operand) : String :=
  if params.isEmpty then page.text
  else
    Names.runtime ++ ".withParams(" ++ page.text ++ ", " ++ stringArray params ++ ", " ++
      Names.context ++ ".getRequest().getCharacterEncoding())"

def lookupBean (name : String) : String :=
  Names.context ++ ".findAttribute(" ++ quote name ++ ")"

namespace Statement

def text : Statement → String
  | code text => text
  | raw text => text
  | write value => "out.write(" ++ value.text ++ ");"
  | writeEscaped value => "out.write(" ++ Names.runtime ++ ".escapeXml(" ++ value.text ++ "));"
  | print source => "out.print(" ++ source ++ ");"
  | declare typeName name => typeName ++ " " ++ name ++ " = null;"
  | hold name value => "java.lang.String " ++ name ++ " = " ++ value.text ++ ";"
  | save (some typeName) copy name => typeName ++ " " ++ copy ++ " = " ++ name ++ ";"
  | save none copy name => copy ++ " = " ++ name ++ ";"
  | restore name copy => name ++ " = " ++ copy ++ ";"
  | sync typeName name => name ++ " = (" ++ typeName ++ ") " ++ lookupBean name ++ ";"
  | pushBody => "out = " ++ Names.context ++ ".pushBody();"
  | popBody => "out = " ++ Names.context ++ ".popBody();"
  | countUp count => count ++ "[0]++;"
  | countDown count => count ++ "[0]--;"
  | capture name trim =>
    "java.lang.String " ++ name ++ " = ((" ++ Names.bodyContent ++ ") out).getString()" ++
      (if trim then ".trim()" else "") ++ ";"
  | acquire typeName handler (some pool) =>
    typeName ++ " " ++ handler ++ " = (" ++ typeName ++ ") " ++ pool ++ ".get(" ++ typeName ++
      ".class);"
  | acquire typeName handler none =>
    typeName ++ " " ++ handler ++ " = new " ++ typeName ++ "();"
  | reuse pool handler => pool ++ ".reuse(" ++ handler ++ ");"
  | set handler setter value => handler ++ "." ++ setter ++ "(" ++ value.text ++ ");"
  | setDynamic handler name value =>
    handler ++ ".setDynamicAttribute(null, " ++ quote name ++ ", " ++ value.text ++ ");"
  | setBody handler value => handler ++ ".setJspBody(" ++ value.text ++ ");"
  | instantiate name typeName className =>
    name ++ " = (" ++ typeName ++
      ") java.beans.Beans.instantiate(this.getClass().getClassLoader(), " ++ className.text ++ ");"
  | setProperty bean property value =>
    Names.runtime ++ ".setProperty(" ++ lookupBean bean ++ ", " ++ quote property ++ ", " ++
      value.text ++ ");"
  | includePage page params flush =>
    Names.runtime ++ ".include(" ++ Names.context ++ ".getRequest(), " ++ Names.context ++
      ".getResponse(), " ++ address page params ++ ", out, " ++
      (if flush then "true" else "false") ++ ");"
  | forwardPage page params => Names.context ++ ".forward(" ++ address page params ++ ");"
  | startPlugin kind className base extra params =>
    "out.write(" ++ Names.runtime ++ ".pluginStart(" ++ kind.text ++ ", " ++ className.text ++
      ", " ++ base.text ++ ", " ++ stringArray extra ++ ", " ++ stringArray params ++ "));"
  | leave style => style.text
  | declareFunctions index functions =>
    "private static final " ++ Names.functionMap ++ " " ++ Names.functionField index ++ " = " ++
      Names.functionMap ++ ".of(new java.lang.Object[][] \x7b " ++
      join ", " (functions.map MappedFunction.text) ++ " \x7d);"
  | declareArray index text =>
    "private static final char[] " ++ Names.charArray index ++ " = " ++ quote text ++
      ".toCharArray();"
  | declarePool pool => "private " ++ Names.handlerPool ++ " " ++ pool ++ ";"
  | initPool pool => pool ++ " = " ++ Names.handlerPool ++ ".getHandlerPool(getServletConfig());"
  | releasePool pool => pool ++ ".release();"
  | caseLabel number => "case " ++ toString number ++ ":"

end Statement

-- What stands in front of the brace that opens a block.
inductive Head where
  | code (text : String)
  -- A call of a method that was split off, which says whether to leave.
  | call (name parent count : String)
  -- The declaration of such a method.
  | method (name : String)
  -- The declaration of the method of a deferred body.
  | deferred (number : Nat)
  deriving DecidableEq, Repr

def Head.text : Head → String
  | code text => text
  | call name parent count =>
    "if (" ++ name ++ "(" ++ parent ++ ", " ++ Names.context ++ ", " ++ count ++ "))"
  | method name =>
    "private boolean " ++ name ++ "(" ++ Names.anyTag ++ " " ++ Names.parent ++ ", " ++
      Names.pageContext ++ " " ++ Names.context ++ ", int[] " ++ Names.pushCount ++
      ") throws java.lang.Throwable"
  | deferred number =>
    "public boolean invoke" ++ toString number ++ "(" ++ Names.writer ++
      " out) throws java.lang.Throwable"

inductive Line where
  | plain (statement : Statement)
  -- A line one level further in.
  | inner (text : String)
  | opens (head : Head)
  -- Closes a block and opens the next one.
  | turns (head : String)
  -- Closes a block.
  | closes (tail : String)
  deriving DecidableEq, Repr

namespace Line

def blank : Line := .plain (.code "")

def code (text : String) : Line := .plain (.code text)

def block (head : String) : Line := .opens (.code head)

def close : Line := .closes "\x7d"

def text : Line → String
  | plain statement => statement.text
  | inner text => text
  | opens head => head.text ++ " \x7b"
  | turns head => "\x7d " ++ head ++ " \x7b"
  | closes tail => tail

-- How far a line is indented.
def depth (indent : Nat) : Line → Nat
  | plain _ | opens _ => indent
  | inner _ => indent + 1
  | turns _ | closes _ => indent - 1

-- The indentation of what follows a line.
def after (indent : Nat) : Line → Nat
  | plain _ | inner _ => indent
  | opens _ => indent + 1
  | turns _ => indent - 1 + 1
  | closes _ => indent - 1

def render (indent : Nat) (line : Line) : String :=
  let text := line.text
  if text.isEmpty then "\n"
  else String.join (List.replicate (line.depth indent) "    ") ++ text ++ "\n"

end Line

-- Lines that are there under a condition.
def onlyIf (holds : Bool) (lines : List Line) : List Line := if holds then lines else []

-- Lines with their indentation, and the indentation behind them.
def renderLines : Nat → List Line → List String × Nat
  | indent, [] => ([], indent)
  | indent, line :: rest =>
    match renderLines (line.after indent) rest with
    | (texts, last) => (line.render indent :: texts, last)

-- Lines that were generated for the same lines of a unit, or for none.
structure Stretch where
  lines : List Line
  unit : String := ""
  sources : List Nat := []
  deriving DecidableEq, Repr

namespace Stretch

def plain (lines : List Line) : Stretch := { lines }

-- Lines for the line at which a node starts.
def forMark (mark : Mark) (lines : List Line) : Stretch :=
  { lines, unit := mark.unit, sources := [mark.line] }

-- The entries of a stretch that starts at a line. Without lines there are none.
def entries (s : Stretch) (start : Nat) : List LineEntry :=
  if s.lines.isEmpty then []
  else s.sources.map fun source => ⟨s.unit, source, start, start + s.lines.length - 1⟩

end Stretch

-- A part of a class that was generated on its own.
abbrev Code := List Stretch

namespace Code

def lines (c : Code) : List Line := c.flatMap Stretch.lines

-- The entries of code that starts at a line: each stretch starts behind the one before it.
def entriesFrom : Nat → Code → List LineEntry
  | _, [] => []
  | start, s :: rest => s.entries start ++ entriesFrom (start + s.lines.length) rest

def render (indent : Nat) (c : Code) : String := String.join (renderLines indent c.lines).1

end Code

-- Part of the text of a class: lines of the class itself, or code with its own indentation.
inductive Section where
  | own (lines : List Line)
  | code (indent : Nat) (code : Code)
  deriving Repr

-- The text of a class and its line map. The line a section starts at is known by the number of
-- lines of the class itself and by the line feeds of the code in front of it.
def assembleFrom (indent line : Nat) : List Section → List String × List LineEntry
  | [] => ([], [])
  | .own lines :: rest =>
    match renderLines indent lines with
    | (texts, indent) =>
      match assembleFrom indent (line + lines.length) rest with
      | (texts', entries) => (texts ++ texts', entries)
  | .code inner code :: rest =>
    let text := code.render inner
    match assembleFrom indent (line + countNewlines text.toList) rest with
    | (texts, entries) => (text :: texts, code.entriesFrom line ++ entries)

def assemble (sections : List Section) : String × LineMap :=
  match assembleFrom 0 1 sections with
  | (texts, entries) => (String.join texts, ⟨entries⟩)

end PageCompiler.ClassText
