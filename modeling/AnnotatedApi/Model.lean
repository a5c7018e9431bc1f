import AnnotatedApi.Annotation.Role
import AnnotatedApi.Text.Case

/-! The schema of a type, and models: the component schema that a block with a typedef describes. -/
namespace AnnotatedApi

namespace TypeExpr

/-- Types that stand for themselves; any other name refers to a component schema. -/
def primitives : List String := ["integer", "number", "string", "boolean"]

def schemaOfName (n : String) : Schema :=
  if n ∈ primitives then .ofType n else .ofReference n

/-- The schema of a part of a type, which has to be a name. -/
def leaf : TypeExpr → Except Error Schema
  | name n => .ok (schemaOfName n)
  | t => .error (.unsupportedType t)

/-- The schema of a type. An optional type keeps the name inside it as it is, and of several arguments
the first one describes the items. -/
def schema : TypeExpr → Except Error Schema
  | name n => .ok (schemaOfName n)
  | optional t => .ok { type := t.name? }
  | union ts => do return { oneOf := some (← ts.mapM leaf) }
  | apply (name container) (t :: _) => do
    return { type := some (Text.lowercase container), items := some (← leaf t) }
  | t => .error (.unsupportedType t)

end TypeExpr

structure Model where
  name : String
  schema : ObjectSchema

namespace Model

def typedef (b : Block) (roles : Roles) : Except Error TypedefTag :=
  match roles.typedef with
  | [] => .error (.missingTypedef b.summary)
  | [t] => .ok t
  | ts => .error (.duplicateTypedef (ts.map (·.name)))

def property (p : TypedTag) : Except Error (String × Schema) := do
  return (p.name, { ← p.type.schema with description := some p.description })

/-- The model that a block describes. Each declaration of a type that is not optional makes its
property required. -/
def compile (b : Block) : Except Error Model := do
  let roles ← Roles.ofTags b.tags
  let typedef ← typedef b roles
  match roles.untypedProperty with
  | p :: _ => .error (.untypedProperty typedef.name p)
  | [] =>
    let properties ← roles.property.mapM property
    return {
      name := typedef.name
      schema := {
        description := if typedef.description = "" then b.description else typedef.description
        required := (roles.property.filter (!·.type.isOptional)).map (·.name)
        properties := .ofList properties } }

end Model

end AnnotatedApi
