import AnnotatedApi.Annotation.Basic
import AnnotatedApi.Error

/-! What each tag of a block contributes. A tag that breaks the rule of its title contributes nothing,
and a tag with errors spoils the block. -/
namespace AnnotatedApi

structure TypedTag where
  name : String
  description : String
  type : TypeExpr

structure ReturnsTag where
  description : String
  type : TypeExpr

structure TypedefTag where
  name : String
  description : String

inductive Role where
  | event (description : String)
  | tags (description : String)
  | param (t : TypedTag)
  | returns (t : ReturnsTag)
  | typedef (t : TypedefTag)
  | property (t : TypedTag)
  | untypedProperty (name : String)

namespace Tag

def properName? (t : Tag) : Option String := t.name.filter (· ≠ "")

/-- The rules of the titles: an event holds `:` and `-`; tags and returns have a description; a param
has a dotted name and a type, returns a type; a typedef and a property have a name. -/
def role? (t : Tag) : Option Role :=
  match t.title, t.properName?, t.type with
  | "event", _, _ =>
    if ':' ∈ t.description.toList ∧ '-' ∈ t.description.toList then some (.event t.description)
    else none
  | "tags", _, _ => if t.description ≠ "" then some (.tags t.description) else none
  | "param", some n, some type =>
    if '.' ∈ n.toList then some (.param ⟨n, t.description, type⟩) else none
  | "returns", _, some type =>
    if t.description ≠ "" then some (.returns ⟨t.description, type⟩) else none
  | "typedef", some n, _ => some (.typedef ⟨n, t.description⟩)
  | "property", some n, some type => some (.property ⟨n, t.description, type⟩)
  | "property", some n, none => some (.untypedProperty n)
  | _, _, _ => none

end Tag

structure Roles where
  event : List String := []
  tags : List String := []
  param : List TypedTag := []
  returns : List ReturnsTag := []
  typedef : List TypedefTag := []
  property : List TypedTag := []
  untypedProperty : List String := []

namespace Roles

def add (roles : Roles) : Role → Roles
  | .event d => { roles with event := d :: roles.event }
  | .tags d => { roles with tags := d :: roles.tags }
  | .param t => { roles with param := t :: roles.param }
  | .returns t => { roles with returns := t :: roles.returns }
  | .typedef t => { roles with typedef := t :: roles.typedef }
  | .property t => { roles with property := t :: roles.property }
  | .untypedProperty n => { roles with untypedProperty := n :: roles.untypedProperty }

/-- Sorts the tags of a block. The first tag with errors is reported. -/
def ofTags : List Tag → Except Error Roles
  | [] => .ok {}
  | t :: rest =>
    if t.errors ≠ [] then .error (.tagErrors t.title t.errors)
    else do
      let roles ← ofTags rest
      return t.role?.elim roles roles.add

end Roles

end AnnotatedApi
