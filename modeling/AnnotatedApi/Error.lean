import AnnotatedApi.Document.Violation
import AnnotatedApi.TypeExpr.Basic

/-! Why no document can be made from the annotations. -/
namespace AnnotatedApi

/-- Why a description is no event. -/
inductive EventFault where
  /-- No event tag holds both separators. -/
  | noSeparators
  | segments (found : Nat)
  | unknownMethod (name : String)
deriving DecidableEq

def EventFault.message : EventFault → String
  | noSeparators => "expected `<METHOD>: <path> - <operationId>`"
  | segments n => s!"expected 3 segments, found {n}"
  | unknownMethod name => "unknown HTTP method '" ++ name ++ "'"

inductive ReadFault where
  | notText
  | directory
deriving DecidableEq

def ReadFault.message : ReadFault → String
  | notText => "stream did not contain valid UTF-8"
  | directory => "Is a directory (os error 21)"

inductive Error where
  | unreadableFile (path : String) (fault : ReadFault)
  | missingFiles (paths : List String)
  | tagErrors (title : String) (messages : List String)
  | malformedEvent (description : String) (fault : EventFault)
  | missingTypedef (block : String)
  | duplicateTypedef (names : List String)
  | untypedProperty (schema property : String)
  | unsupportedType (type : TypeExpr)
  | missingServers
  | invalid (violation : Violation)

def Error.message : Error → String
  | unreadableFile path fault => "Unable to read file " ++ path ++ ": " ++ fault.message
  | missingFiles paths => "Not found:" ++ String.join (paths.map ("\n" ++ ·))
  | tagErrors title messages => "Invalid @" ++ title ++ " tag: " ++ ",".intercalate messages
  | malformedEvent description fault =>
    "Malformed @event '" ++ description ++ "': " ++ fault.message
  | missingTypedef block => "No typedef assigned for " ++ block
  | duplicateTypedef names => "Multiple typedefs in one block: " ++ ", ".intercalate names
  | untypedProperty schema property => "Property '" ++ property ++ "' of " ++ schema ++ " has no type"
  | unsupportedType type => "Unable to parse type: " ++ type.display
  | missingServers => "Server(s) not specified for all paths!"
  | invalid violation => "Invalid OpenAPI document: " ++ violation.message

end AnnotatedApi
