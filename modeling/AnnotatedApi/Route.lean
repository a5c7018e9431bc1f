import AnnotatedApi.Annotation.Role
import AnnotatedApi.Model

/-! Routes: the operation that a block with an event describes, and where it is served. -/
namespace AnnotatedApi

open Text

structure Event where
  method : Method
  path : String
  operationId : String
deriving DecidableEq

namespace Event

def isSeparator (c : Char) : Bool := c = ':' || c = '-'

/-- Reads `<METHOD>: <path> - <operationId>`. Both separators are alike, so neither may stand in a
segment. -/
def parse (description : String) : Except Error Event :=
  match (description.toList.splitOnP isSeparator).map trim with
  | [method, path, operationId] =>
    match Method.parse? (String.ofList method) with
    | some m => .ok ⟨m, String.ofList path, String.ofList operationId⟩
    | none => .error (.malformedEvent description (.unknownMethod (String.ofList method)))
  | segments => .error (.malformedEvent description (.segments segments.length))

end Event

structure Route where
  method : Method
  path : String
  operation : Operation

namespace Route

def isBody (p : TypedTag) : Bool := ['b', 'o', 'd', 'y'] <+: p.name.toList

/-- Status and text of a response: the first two parts between hyphens. -/
def splitStatus (description : String) : String × String :=
  let parts := (description.toList.splitOn '-').map fun s => String.ofList (trim s)
  (parts.getD 0 "", parts.getD 1 "")

/-- Location and name: the first two parts between points. -/
def splitName (name : String) : String × String :=
  let parts := (name.toList.splitOn '.').map String.ofList
  (parts.getD 0 "", parts.getD 1 "")

def parameter (p : TypedTag) : Except Error Parameter := do
  return {
    required := !p.type.isOptional
    description := p.description
    location := (splitName p.name).1
    name := (splitName p.name).2
    schema := ← p.type.schema }

def response (t : ReturnsTag) : Except Error (String × Content) := do
  let (status, text) := splitStatus t.description
  return (status, .json text (← t.type.schema))

def nonempty? {α : Type} (xs : List α) : Option (List α) := if xs.isEmpty then none else some xs

theorem nonempty?_eq_none_iff {α : Type} {xs : List α} : nonempty? xs = none ↔ xs = [] := by
  cases xs <;> simp [nonempty?]

theorem eq_of_mem_nonempty? {α : Type} {xs ys : List α} (h : ys ∈ nonempty? xs) : ys = xs := by
  cases xs with
  | nil => cases h
  | cons x xs => exact (Option.some.inj h).symm

/-- The event of a block: the first one with both separators. -/
def event (b : Block) (roles : Roles) : Except Error Event :=
  match roles.event with
  | d :: _ => Event.parse d
  | [] =>
    let description := ((b.tags.find? (·.title = "event")).map (·.description)).getD ""
    .error (.malformedEvent description .noSeparators)

/-- The route that a block describes. Types are resolved for the first body, then the parameters, then
the responses. -/
def compile (b : Block) : Except Error Route := do
  let roles ← Roles.ofTags b.tags
  let event ← event b roles
  let body ← ((roles.param.filter isBody).head?).mapM fun p => do
    return Content.json p.description (← p.type.schema)
  let parameters ← (roles.param.filter (!isBody ·)).mapM parameter
  let responses ← roles.returns.mapM response
  return {
    method := event.method
    path := event.path
    operation := {
      description := if b.description = "" then none else some b.description
      operationId := event.operationId
      tags := roles.tags.head?.map fun list =>
        (list.toList.splitOn ',').map fun t => String.ofList (trim t)
      parameters := nonempty? parameters
      requestBody := body
      responses := (nonempty? responses).map .ofList } }

end Route

end AnnotatedApi
