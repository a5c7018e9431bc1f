import AnnotatedApi.Document.Basic

/-! What is wrong with a document. The violations are listed in order of checking, and a document is
valid when there are none. -/
namespace AnnotatedApi

inductive Place where
  | operation (method : Method) (path : String)
  | schema (name : String)
deriving DecidableEq

def Place.display : Place → String
  | operation method path => method.display ++ " " ++ path
  | schema name => "schema " ++ name

/-- Why a contact or a license does not decode. -/
inductive ShapeFault where
  /-- A member that has to be a text is something else. -/
  | notText (found : String)
  | noName
deriving DecidableEq

def ShapeFault.message : ShapeFault → String
  | notText found => "invalid type: " ++ found ++ ", expected a string"
  | noName => "missing field `name`"

inductive Violation where
  | version (openapi : String)
  | path (path : String)
  | duplicateId (operationId : String) (place : Place)
  | noResponses (place : Place)
  | status (place : Place) (status : String)
  | location (parameter : String) (place : Place) (location : String)
  | optionalPath (parameter : String) (place : Place)
  | unknownSchema (place : Place) (target : String)
  | shape (fault : ShapeFault)
deriving DecidableEq

def Violation.message : Violation → String
  | version v => "unsupported openapi version '" ++ v ++ "'"
  | path p => "path '" ++ p ++ "' must start with '/'"
  | duplicateId id place => "duplicate operationId '" ++ id ++ "' at " ++ place.display
  | noResponses place => place.display ++ " has no responses"
  | status place s => place.display ++ " has invalid response status '" ++ s ++ "'"
  | location p place l =>
    "parameter '" ++ p ++ "' of " ++ place.display ++ " has unknown location '" ++ l ++ "'"
  | optionalPath p place => "path parameter '" ++ p ++ "' of " ++ place.display ++ " must be required"
  | unknownSchema place target => place.display ++ " references unknown schema '" ++ target ++ "'"
  | shape fault => "not a valid OpenAPI 3.0 document: " ++ fault.message

/-- `default`, a code of three digits from 100 to 599, or a range such as `2XX`. -/
def isStatus (s : String) : Bool :=
  s = "default" ||
    match s.toList with
    | [a, b, c] => '1' ≤ a && a ≤ '5' && (b.isDigit && c.isDigit || b = 'X' && c = 'X')
    | _ => false

def parameterLocations : List String := ["query", "header", "path", "cookie"]

def Parameter.violations (p : Parameter) (place : Place) : List Violation :=
  (if p.location ∈ parameterLocations then [] else [.location p.name place p.location]) ++
    if p.location = "path" ∧ ¬p.required then [.optionalPath p.name place] else []

namespace Operation

def parameterList (o : Operation) : List Parameter := o.parameters.getD []

def schemas (o : Operation) : List Schema :=
  o.parameterList.map (·.schema) ++
    (o.requestBody.toList ++ (o.responses.map (·.values)).getD []).flatMap (·.content.values)

def violations (o : Operation) (place : Place) : List Violation :=
  let statuses := (o.responses.map (·.keys)).getD []
  (if statuses.isEmpty then [.noResponses place] else []) ++
    (statuses.filter (!isStatus ·)).map (.status place) ++
    o.parameterList.flatMap (·.violations place)

end Operation

/-- What is wrong with the operations, when those before them use the ids `seen`. -/
def operationViolations (path : String) :
    (seen : List String) → List (Method × Operation) → List Violation
  | _, [] => []
  | seen, (m, o) :: rest =>
    (if o.operationId ∈ seen then [.duplicateId o.operationId (.operation m path)] else []) ++
      o.violations (.operation m path) ++ operationViolations path (o.operationId :: seen) rest

def pathViolations : (seen : List String) → List (String × PathItem) → List Violation
  | _, [] => []
  | seen, (path, item) :: rest =>
    (if path.toList.head? = some '/' then [] else [.path path]) ++
      operationViolations path seen item.operations ++
      pathViolations (item.operations.map (·.2.operationId) ++ seen) rest

/-- What a value is that stands in the place of a text. -/
def Json.notText? : Json → Option String
  | null => some "null"
  | bool b => some ("boolean `" ++ toString b ++ "`")
  | num (.word w) => some ("integer `" ++ (Number.word w).toText Number.jsonLayout ++ "`")
  | num (.double d) => some ("floating point `" ++ d.toText Number.jsonLayout ++ "`")
  | str _ => none
  | arr _ => some "sequence"
  | obj _ => some "map"

namespace FreeObject

def textFaults (o : FreeObject) (name : String) : List ShapeFault :=
  (((o.get? name).bind Json.notText?).map .notText).toList

/-- Null counts as a member that is not there. -/
def optionalTextFaults (o : FreeObject) (name : String) : List ShapeFault :=
  match o.get? name with
  | some .null => []
  | _ => o.textFaults name

def contactFaults (o : FreeObject) : List ShapeFault :=
  ["email", "name", "url"].flatMap o.optionalTextFaults

/-- A name that is missing is found after the members that are there. -/
def licenseFaults (o : FreeObject) : List ShapeFault :=
  o.textFaults "name" ++ o.optionalTextFaults "url" ++
    if (o.get? "name").isNone then [.noName] else []

end FreeObject

def Info.faults (i : Info) : List ShapeFault :=
  (i.contact.map (·.contactFaults)).getD [] ++ (i.license.map (·.licenseFaults)).getD []

namespace Document

def references (d : Document) : List (Place × String) :=
  (d.operations.flatMap fun (path, m, o) =>
    (o.schemas.flatMap Schema.references).map (.operation m path, ·)) ++
    d.schemas.entries.flatMap fun (name, s) => s.references.map (.schema name, ·)

def violations (d : Document) : List Violation :=
  (if ['3', '.', '0', '.'] <+: d.openapi.toList then [] else [.version d.openapi]) ++
    pathViolations [] d.paths.entries ++
    (d.references.filter fun r => !d.schemas.contains r.2).map (fun r => .unknownSchema r.1 r.2) ++
    d.info.faults.map .shape

/-- Hands back a document without violations; otherwise reports the first one. -/
def validate (d : Document) : Except Violation Document :=
  match d.violations with
  | [] => .ok d
  | v :: _ => .error v

end Document

end AnnotatedApi
