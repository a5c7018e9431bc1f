import AnnotatedApi.Annotation.Comment
import AnnotatedApi.Model
import AnnotatedApi.Route

/-! The catalogue of routes and models that a list of blocks describes. What is defined again replaces
the earlier definition in its place, with a warning. -/
namespace AnnotatedApi

inductive Warning where
  | unterminatedComment
  | operationRedefined (method : Method) (path previousId : String)
  | schemaRedefined (name : String)
deriving DecidableEq

def Warning.message : Warning → String
  | unterminatedComment => "Ignoring unterminated documentation comment"
  | operationRedefined method path previousId =>
    "Operation " ++ method.display ++ " " ++ path ++ " (" ++ previousId
      ++ ") redefined; keeping the later one"
  | schemaRedefined name => "Schema " ++ name ++ " redefined; keeping the later one"

def Annotations.warnings (a : Annotations) : List Warning :=
  if a.unterminated then [.unterminatedComment] else []

inductive Definition where
  | route (r : Route)
  | model (m : Model)

/-- Paths and component schemas in order of first definition. -/
structure Catalogue where
  paths : OrderedMap PathItem := .empty
  schemas : OrderedMap ObjectSchema := .empty

namespace Catalogue

instance : Inhabited Catalogue := ⟨{}⟩

def addRoute (c : Catalogue) (r : Route) : Catalogue :=
  let item := (c.paths.get? r.path).getD {}
  { c with paths := c.paths.insert r.path (item.setOperation r.method r.operation) }

def addModel (c : Catalogue) (m : Model) : Catalogue :=
  { c with schemas := c.schemas.insert m.name m.schema }

def add (c : Catalogue) : Definition → Catalogue
  | .route r => c.addRoute r
  | .model m => c.addModel m

def operation? (c : Catalogue) (path : String) (method : Method) : Option Operation :=
  (c.paths.get? path).bind (·.operation? method)

def addWarning? (c : Catalogue) : Definition → Option Warning
  | .route r => (c.operation? r.path r.method).map fun o =>
      .operationRedefined r.method r.path o.operationId
  | .model m => if c.schemas.contains m.name then some (.schemaRedefined m.name) else none

def addAll (c : Catalogue) : List Definition → Catalogue × List Warning
  | [] => (c, [])
  | d :: rest =>
    let (result, warnings) := (c.add d).addAll rest
    (result, (c.addWarning? d).toList ++ warnings)

end Catalogue

namespace Block

def compile (b : Block) : Except Error (Option Definition) :=
  match b.kind with
  | .route => do return some (.route (← Route.compile b))
  | .schema => do return some (.model (← Model.compile b))
  | .inert => return none

end Block

namespace Catalogue

/-- The catalogue of a list of blocks: the routes first, then the models. The first block that does not
compile is reported. -/
def ofBlocks (blocks : List Block) : Except Error (Catalogue × List Warning) := do
  let routes ← (blocks.filter (·.kind = .route)).mapM Route.compile
  let models ← (blocks.filter (·.kind = .schema)).mapM Model.compile
  return ({} : Catalogue).addAll (routes.map .route ++ models.map .model)

/-- A catalogue after blocks have been added one by one, up to the first that does not compile. -/
structure Extended where
  catalogue : Catalogue
  warnings : List Warning := []
  error : Option Error := none

def extend (c : Catalogue) : List Block → Extended
  | [] => { catalogue := c }
  | b :: rest =>
    match b.compile with
    | .error e => { catalogue := c, error := some e }
    | .ok d =>
      let added := d.elim c c.add
      let result := added.extend rest
      { result with warnings := (d.bind c.addWarning?).toList ++ result.warnings }

end Catalogue

/-- Gives every path the server of the first override whose root it starts with. A path that no override
fits stays as it is. -/
def applyOverrides (overrides : List ServerOverride) (paths : OrderedMap PathItem) :
    OrderedMap PathItem :=
  paths.mapValues fun path item =>
    match overrides.find? (·.root.toList <+: path.toList) with
    | some o => { item with servers := some [⟨o.url, some (o.description.getD "")⟩] }
    | none => item

def Catalogue.override (c : Catalogue) (overrides : List ServerOverride) : Catalogue :=
  { c with paths := applyOverrides overrides c.paths }

end AnnotatedApi
