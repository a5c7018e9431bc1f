import AnnotatedApi.Json.Reader
import AnnotatedApi.OrderedMap
import AnnotatedApi.Source
import AnnotatedApi.Text.Basic

/-! Schemas: the fragment that describes one value, and the object schema of a component. -/
namespace AnnotatedApi

structure Schema where
  description : Option String := none
  type : Option String := none
  reference : Option String := none
  oneOf : Option (List Schema) := none
  items : Option Schema := none

namespace Schema

instance : Inhabited Schema := ⟨{}⟩

def componentRoot : String := "#/components/schemas/"

def ofType (name : String) : Schema := { type := some name }

def ofReference (name : String) : Schema := { reference := some (componentRoot ++ name) }

/-- The name that a reference points to: what follows the root, or all of it. -/
def target (reference : String) : String :=
  ((componentRoot.toList.isPrefixOf? reference.toList).map String.ofList).getD reference

mutual

/-- The names of all component schemas that a schema refers to, nested ones included. -/
def references : Schema → List String
  | ⟨_, _, reference, oneOf, items⟩ =>
    (reference.map target).toList ++ referencesOneOf oneOf ++ referencesItems items

def referencesOneOf : Option (List Schema) → List String
  | none => []
  | some schemas => referencesList schemas

def referencesItems : Option Schema → List String
  | none => []
  | some schema => references schema

def referencesList : List Schema → List String
  | [] => []
  | schema :: rest => references schema ++ referencesList rest

end

mutual

def toJson : Schema → Json
  | ⟨description, type, reference, oneOf, items⟩ => .ofMembers [
      ("description", description.map .str),
      ("type", type.map .str),
      ("$ref", reference.map .str),
      ("oneOf", oneOfToJson oneOf),
      ("items", itemsToJson items)]

def oneOfToJson : Option (List Schema) → Option Json
  | none => none
  | some schemas => some (.arr (listToJson schemas))

def itemsToJson : Option Schema → Option Json
  | none => none
  | some schema => some (toJson schema)

def listToJson : List Schema → List Json
  | [] => []
  | schema :: rest => toJson schema :: listToJson rest

end

variable {σ : Type} [Source σ]

def decodeWithin : (depth : Nat) → σ → Option Schema
  | 0, _ => none
  | depth + 1, v => do
    let r ← Source.record? v
    r.atMost 5
    return {
      description := ← r.optional 0 "description" Source.text?
      type := ← r.optional 1 "type" Source.text?
      reference := ← r.optional 2 "$ref" Source.text?
      oneOf := ← r.optional 3 "oneOf" (Source.list? (decodeWithin depth))
      items := ← r.optional 4 "items" (decodeWithin depth) }

/-- Decodes a schema. No text nests deeper than its reader admits. -/
def decode (v : σ) : Option Schema := decodeWithin Json.nestingLimit v

end Schema

/-- Decodes a map; a key that is repeated keeps its first place and takes the last value. -/
def OrderedMap.decode {σ α : Type} [Source σ] (value : σ → Option α) (v : σ) :
    Option (OrderedMap α) := do
  let entries ← (← Source.entries? v).mapM fun (k, v) => (value v).map (k, ·)
  return .ofList entries

def OrderedMap.toJson {α : Type} (value : α → Json) (m : OrderedMap α) : Json :=
  .obj (m.entries.map fun e => (e.1, value e.2))

structure ObjectSchema where
  type : String := "object"
  description : String := ""
  /-- The properties that may not be missing. -/
  required : List String := []
  properties : OrderedMap Schema := .empty

namespace ObjectSchema

instance : Inhabited ObjectSchema := ⟨{}⟩

def references (s : ObjectSchema) : List String := s.properties.values.flatMap Schema.references

def toJson (s : ObjectSchema) : Json :=
  .obj [
    ("type", .str s.type),
    ("description", .str s.description),
    ("required", .arr (s.required.map .str)),
    ("properties", s.properties.toJson Schema.toJson)]

def decode {σ : Type} [Source σ] (v : σ) : Option ObjectSchema := do
  let r ← Source.record? v
  r.atMost 4
  return {
    type := ← r.required 0 "type" Source.text?
    description := ← r.required 1 "description" Source.text?
    required := ← r.required 2 "required" Source.texts?
    properties := ← r.required 3 "properties" (OrderedMap.decode Schema.decode) }

end ObjectSchema

end AnnotatedApi
