import PageCompiler.Text.Cut

namespace PageCompiler.ClassText

open Text

def reservedWords : List String :=
  ["abstract", "assert", "boolean", "break", "byte", "case", "catch", "char", "class", "const",
    "continue", "default", "do", "double", "else", "enum", "extends", "final", "finally", "float",
    "for", "goto", "if", "implements", "import", "instanceof", "int", "interface", "long",
    "native", "new", "package", "private", "protected", "public", "return", "short", "static",
    "strictfp", "super", "switch", "synchronized", "this", "throw", "throws", "transient", "try",
    "void", "volatile", "while", "true", "false", "null"]

def isIdentifierChar (c : Char) : Bool := c.isAlphanum || c = '_'

-- Characters outside the identifier characters become underscores, and a digit at the front gets
-- one before it.
def mangle (name : List Char) : List Char :=
  let kept := name.map fun c => if isIdentifierChar c then c else '_'
  match name with
  | [] => ['_']
  | c :: _ => if c.isDigit then '_' :: kept else kept

-- A reserved word gets an underscore behind it.
def identifier (name : String) : String :=
  let mangled := String.ofList (mangle name.toList)
  if reservedWords.contains mangled then mangled ++ "_" else mangled

def capitalize (name : String) : String :=
  match (identifier name).toList with
  | [] => ""
  | c :: rest => String.ofList (c.toUpper :: rest)

def setterName (attr : String) : String := "set" ++ capitalize attr

def getterName (property : String) : String := "get" ++ capitalize property

-- The package and the name of the class of a unit: one package for each directory.
def classOfUnit (basePackage unit : String) : String × String :=
  let parts := (split '/' unit).filter fun s => !s.isEmpty
  let package := parts.dropLast.foldl (fun p dir => p ++ "." ++ identifier dir) basePackage
  (package, identifier (parts.getLast?.getD "page"))

-- The field of the handler pool that all uses of an action share when they have the same
-- attribute names, in whatever order, and both or neither a body.
def poolField (space name : String) (attributes : List String) (hasBody : Bool) : String :=
  let names := attributes.mergeSort fun a b => decide (b ≤ a)
  "_pagex_tagPool_" ++ identifier space ++ "_" ++ identifier name ++
    String.join (names.map fun a => "_" ++ identifier a) ++ if hasBody then "" else "_nobody"

namespace Names

def pageBase : String := "org.pagec.runtime.PageBase"
def runtime : String := "org.pagec.runtime.PageRuntime"
def handlerPool : String := "org.pagec.runtime.HandlerPool"
def functionMap : String := "org.pagec.runtime.FunctionMap"
def fragmentHelper : String := "org.pagec.runtime.FragmentHelper"
def pageFactory : String := "org.pagec.runtime.PageFactory"
def pageDependent : String := "org.pagec.runtime.PageDependent"
def anyTag : String := "jakarta.servlet.jsp.tagext.JspTag"
def tag : String := "jakarta.servlet.jsp.tagext.Tag"
def bodyTag : String := "jakarta.servlet.jsp.tagext.BodyTag"
def simpleTag : String := "jakarta.servlet.jsp.tagext.SimpleTag"
def tagAdapter : String := "jakarta.servlet.jsp.tagext.TagAdapter"
def bodyContent : String := "jakarta.servlet.jsp.tagext.BodyContent"
def writer : String := "jakarta.servlet.jsp.JspWriter"
def anyContext : String := "jakarta.servlet.jsp.JspContext"
def pageContext : String := "jakarta.servlet.jsp.PageContext"
def pageException : String := "jakarta.servlet.jsp.JspException"
def skipPage : String := "jakarta.servlet.jsp.SkipPageException"

-- What every class imports.
def imports : List String :=
  ["jakarta.servlet.*", "jakarta.servlet.http.*", "jakarta.servlet.jsp.*"]

-- The page context, in every method.
def context : String := "_pagex_page_context"
-- The cell that counts the bodies pushed in a region.
def pushCount : String := "_pagex_push_body_count"
-- The enclosing handler, in methods that are called for a part of the page.
def parent : String := "_pagex_parent"
-- The class of the bodies that are run later.
def helper : String := "Helper"

def charArray (index : Nat) : String := "_pagex_char_array_" ++ toString index
def functionField (index : Nat) : String := "_pagex_fnmap_" ++ toString index

end Names
end PageCompiler.ClassText
