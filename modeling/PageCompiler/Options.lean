import PageCompiler.Library.Descriptor

namespace PageCompiler

-- How literal text is put into a class.
inductive LiteralStrategy where
  | inline
  -- As constant character arrays.
  | charArrays
  deriving DecidableEq, Repr, Inhabited

namespace LiteralStrategy

def ofName? : String → Option LiteralStrategy
  | "inline" => some inline
  | "char-arrays" => some charArrays
  | _ => none

def name : LiteralStrategy → String
  | inline => "inline"
  | charArrays => "char-arrays"

end LiteralStrategy

structure Options where
  -- The encoding of a unit that says nothing about its own.
  defaultEncoding : String := "UTF-8"
  pageEncoding : Option String := none
  -- Reads every unit as XML, or none.
  forceStrict : Option Bool := none
  trimDirectiveWhitespaces : Bool := false
  preserveXmlWhitespace : Bool := false
  scriptingDisabled : Bool := false
  elIgnored : Bool := false
  deferredAsLiteral : Bool := false
  -- Units put in front of the page, and behind it.
  prelude : List String := []
  coda : List String := []
  bufferSize : Nat := 8192
  autoFlush : Bool := true
  poolTagHandlers : Bool := true
  splitMethods : Bool := true
  literalStrategy : LiteralStrategy := .inline
  -- The most bytes of literal text one statement writes.
  maxLiteralWrite : Nat := 32768
  package : String := "org.pagec.generated"
  -- Descriptor files by library uri.
  libraries : List (String × String) := []
  searchRoots : List String := []
  deriving DecidableEq, Repr, Inhabited

namespace Options

open Data Value

def keys : List String :=
  ["default-encoding", "page-encoding", "xml-syntax", "trim-directive-whitespaces",
    "preserve-xml-whitespace", "scripting-disabled", "el-ignored",
    "deferred-syntax-allowed-as-literal", "prelude", "coda", "buffer-size", "auto-flush",
    "pool-tag-handlers", "split-methods", "literal-strategy", "max-literal-write", "package",
    "libraries", "search-roots"]

def ofValue? (v : Value) : Option Options := do
  let fs ← v.fields? keys
  let d : Options := {}
  return {
    defaultEncoding := ← Value.field? fs "default-encoding" toText? d.defaultEncoding
    pageEncoding := ← Value.field? fs "page-encoding" (toOption? toText?) d.pageEncoding
    forceStrict := ← Value.field? fs "xml-syntax" (toOption? toBool?) d.forceStrict
    trimDirectiveWhitespaces :=
      ← Value.field? fs "trim-directive-whitespaces" toBool? d.trimDirectiveWhitespaces
    preserveXmlWhitespace :=
      ← Value.field? fs "preserve-xml-whitespace" toBool? d.preserveXmlWhitespace
    scriptingDisabled := ← Value.field? fs "scripting-disabled" toBool? d.scriptingDisabled
    elIgnored := ← Value.field? fs "el-ignored" toBool? d.elIgnored
    deferredAsLiteral :=
      ← Value.field? fs "deferred-syntax-allowed-as-literal" toBool? d.deferredAsLiteral
    prelude := ← Value.field? fs "prelude" (toList? toText?) d.prelude
    coda := ← Value.field? fs "coda" (toList? toText?) d.coda
    bufferSize := ← Value.field? fs "buffer-size" toNatural? d.bufferSize
    autoFlush := ← Value.field? fs "auto-flush" toBool? d.autoFlush
    poolTagHandlers := ← Value.field? fs "pool-tag-handlers" toBool? d.poolTagHandlers
    splitMethods := ← Value.field? fs "split-methods" toBool? d.splitMethods
    literalStrategy :=
      ← Value.field? fs "literal-strategy" (toName? LiteralStrategy.ofName?) d.literalStrategy
    maxLiteralWrite := ← Value.field? fs "max-literal-write" toNatural? d.maxLiteralWrite
    package := ← Value.field? fs "package" toText? d.package
    libraries := ← Value.field? fs "libraries" (toMap? toText?) d.libraries
    searchRoots := ← Value.field? fs "search-roots" (toList? toText?) d.searchRoots }

def invalid (message : String) : Diagnostic := .unplaced "config" (.configuration message)

-- Options have to leave room for text to write, and name a package all parts of which are there.
def check (o : Options) : Except Diagnostic Options :=
  if o.maxLiteralWrite = 0 then .error (invalid "max-literal-write must be positive")
  else if (Text.split '.' o.package).any String.isEmpty then
    .error (invalid ("package '" ++ o.package ++ "' is not a valid package name"))
  else .ok o

def read (format : DocumentFormat) (text : String) : Except Diagnostic Options :=
  match (format.parse? text).bind ofValue? with
  | some o => o.check
  | none => .error (invalid "<format>")

end Options
end PageCompiler
