import PageCompiler.Mark

-- What can go wrong with a page, in one type of causes; the wording, the code and the category of a
-- cause are functions of it. A diagnostic is a cause together with the phase that met it and the
-- place it was met at.
namespace PageCompiler

inductive Fault where
  | unterminated (construct : String)
  | unbalancedEndTag (name : String)
  | malformedConstruct (construct : String)
  | unexpectedToken (expected found : String)
  | invalidExpression (expression reason : String)
  | scriptingNotAllowed (construct : String)
  | markup (message : String)
  | unknownAction (name : String)
  | unknownFunction (space function : String)
  | missingAttribute (action name : String)
  | duplicateAttribute (action name : String)
  | unknownAttribute (action name : String)
  | invalidAttributeValue (action name reason : String)
  | mixedExpressionDialects (action name : String)
  | dynamicAttributeMismatch (tag handler : String)
  | bodyContentViolation (action reason : String)
  | libraryNotFound (uri : String)
  | invalidDescriptor (path reason : String)
  | invalidDirective (reason : String)
  | crossedParentheses (signature : String)
  | splitCharacter (start stop : Nat)
  | overflown (quantity : String)
  | directiveConflict (name first firstUnit second secondUnit : String)
  | encodingMismatch (declared detected signal : String)
  | unsupportedEncoding (encoding : String)
  | duplicateVariable (action name : String)
  | tagValidation (tag : String) (messages : List String)
  | libraryValidation (uri : String) (messages : List String)
  | unreadable (path message : String)
  | configuration (message : String)
  deriving DecidableEq, Repr

inductive FaultCategory where
  -- The text of a unit does not parse.
  | form
  -- An action, attribute or library is used against its contract.
  | contract
  -- Two parts of the page disagree.
  | consistency
  -- A library rejected the page.
  | externalValidation
  -- Files and options.
  | environment
  deriving DecidableEq, Repr

namespace FaultCategory

def name : FaultCategory → String
  | form => "Syntax"
  | contract => "Contract"
  | consistency => "Consistency"
  | externalValidation => "ExternalValidation"
  | environment => "Environment"

-- The words put under the place of the fault.
def label : FaultCategory → String
  | form => "syntax error here"
  | contract => "contract violated here"
  | consistency => "inconsistent here"
  | externalValidation => "rejected here"
  | environment => "while processing this"

end FaultCategory

namespace Fault

def category : Fault → FaultCategory
  | unterminated .. | unbalancedEndTag .. | malformedConstruct .. | unexpectedToken ..
  | invalidExpression .. | scriptingNotAllowed .. | markup .. | splitCharacter .. => .form
  | unknownAction .. | unknownFunction .. | missingAttribute .. | duplicateAttribute ..
  | unknownAttribute .. | invalidAttributeValue .. | mixedExpressionDialects ..
  | dynamicAttributeMismatch .. | bodyContentViolation .. | libraryNotFound ..
  | invalidDescriptor .. | invalidDirective .. | crossedParentheses .. | overflown .. => .contract
  | directiveConflict .. | encodingMismatch .. | unsupportedEncoding ..
  | duplicateVariable .. => .consistency
  | tagValidation .. | libraryValidation .. => .externalValidation
  | unreadable .. | configuration .. => .environment

-- What nobody looks out for: the compiler does not report it, but stops on the spot.
def aborts : Fault → Bool
  | crossedParentheses .. | splitCharacter .. | overflown .. => true
  | _ => false

-- The last part of the diagnostic code.
def code : Fault → String
  | unterminated .. => "unterminated"
  | unbalancedEndTag .. => "unbalanced_end_tag"
  | malformedConstruct .. => "malformed_construct"
  | unexpectedToken .. => "unexpected_token"
  | invalidExpression .. => "invalid_expression"
  | scriptingNotAllowed .. => "scripting_not_allowed"
  | markup .. => "markup"
  | unknownAction .. => "unknown_action"
  | unknownFunction .. => "unknown_function"
  | missingAttribute .. => "missing_attribute"
  | duplicateAttribute .. => "duplicate_attribute"
  | unknownAttribute .. => "unknown_attribute"
  | invalidAttributeValue .. => "invalid_attribute_value"
  | mixedExpressionDialects .. => "mixed_expression_dialects"
  | dynamicAttributeMismatch .. => "dynamic_attribute_mismatch"
  | bodyContentViolation .. => "body_content_violation"
  | libraryNotFound .. => "library_not_found"
  | invalidDescriptor .. => "invalid_descriptor"
  | invalidDirective .. => "invalid_directive"
  | crossedParentheses .. => "crossed_parentheses"
  | splitCharacter .. => "split_character"
  | overflown .. => "overflown"
  | directiveConflict .. => "directive_conflict"
  | encodingMismatch .. => "encoding_mismatch"
  | unsupportedEncoding .. => "unsupported_encoding"
  | duplicateVariable .. => "duplicate_variable"
  | tagValidation .. => "tag_validation"
  | libraryValidation .. => "library_validation"
  | unreadable .. => "io"
  | configuration .. => "config"

def joined (messages : List String) : String := String.intercalate "; " messages

def message : Fault → String
  | unterminated construct => "unterminated " ++ construct
  | unbalancedEndTag name => "unbalanced end tag </" ++ name ++ ">"
  | malformedConstruct construct => "malformed " ++ construct
  | unexpectedToken expected found => "expected " ++ expected ++ ", found " ++ found
  | invalidExpression expression reason =>
    "invalid expression '" ++ expression ++ "': " ++ reason
  | scriptingNotAllowed construct =>
    construct ++ " is not allowed here: scripting is disabled in this body"
  | markup message => "malformed markup: " ++ message
  | unknownAction name => "unknown action <" ++ name ++ ">"
  | unknownFunction space function =>
    "unknown prefix '" ++ space ++ "' in function '" ++ function ++ "'"
  | missingAttribute action name =>
    "missing mandatory attribute '" ++ name ++ "' on <" ++ action ++ ">"
  | duplicateAttribute action name =>
    "attribute '" ++ name ++ "' of <" ++ action ++
      "> is given both inline and as a named attribute"
  | unknownAttribute action name =>
    "<" ++ action ++ "> does not accept attribute '" ++ name ++ "'"
  | invalidAttributeValue action name reason =>
    "attribute '" ++ name ++ "' of <" ++ action ++ "> " ++ reason
  | mixedExpressionDialects action name =>
    "attribute '" ++ name ++ "' of <" ++ action ++
      "> mixes immediate and deferred expressions"
  | dynamicAttributeMismatch tag handler =>
    "<" ++ tag ++ "> declares dynamic attributes but its handler " ++ handler ++
      " does not accept them"
  | bodyContentViolation action reason => "body of <" ++ action ++ "> " ++ reason
  | libraryNotFound uri => "tag library '" ++ uri ++ "' could not be resolved"
  | invalidDescriptor path reason =>
    "invalid library descriptor '" ++ path ++ "': " ++ reason
  | invalidDirective reason => "invalid directive: " ++ reason
  | crossedParentheses signature =>
    "signature '" ++ signature ++ "' closes its parentheses before it opens them"
  | splitCharacter start stop =>
    "bytes " ++ toString start ++ " to " ++ toString stop ++ " cut through a character"
  | overflown quantity => "'" ++ quantity ++ "' does not fit into 64 bits"
  | directiveConflict name first firstUnit second secondUnit =>
    "conflicting values for '" ++ name ++ "': '" ++ first ++ "' (" ++ firstUnit ++
      ") and '" ++ second ++ "' (" ++ secondUnit ++ ")"
  | encodingMismatch declared detected signal =>
    "page encoding '" ++ declared ++ "' does not match " ++ signal ++ " encoding '" ++
      detected ++ "'"
  | unsupportedEncoding encoding => "unsupported encoding '" ++ encoding ++ "'"
  | duplicateVariable action name =>
    "scripting variable '" ++ name ++ "' is declared more than once by <" ++ action ++ ">"
  | tagValidation tag messages =>
    "<" ++ tag ++ "> was rejected by its library: " ++ joined messages
  | libraryValidation uri messages =>
    "page was rejected by library '" ++ uri ++ "': " ++ joined messages
  | unreadable path message => "cannot read '" ++ path ++ "': " ++ message
  | configuration message => "invalid configuration: " ++ message

end Fault
end PageCompiler
