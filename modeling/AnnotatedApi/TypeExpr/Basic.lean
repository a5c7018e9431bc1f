import AnnotatedApi.Json.Basic

/-! Type expressions, as they stand between the braces of a tag. -/
namespace AnnotatedApi

inductive TypeExpr where
  /-- A dotted name. -/
  | name (n : String)
  /-- `T=` -/
  | optional (t : TypeExpr)
  /-- `A|B` -/
  | union (alternatives : List TypeExpr)
  /-- `C<A, B>` -/
  | apply (container : TypeExpr) (arguments : List TypeExpr)
  /-- `?T` -/
  | nullable (t : TypeExpr)
  /-- `!T` -/
  | nonNullable (t : TypeExpr)
  /-- `*` -/
  | any

namespace TypeExpr

instance : Inhabited TypeExpr := ⟨any⟩

/-- `T[]` is another way to write `Array<T>`. -/
def arrayOf (t : TypeExpr) : TypeExpr := apply (name "Array") [t]

/-- A single alternative is no union. -/
def ofAlternatives (t : TypeExpr) : List TypeExpr → TypeExpr
  | [] => t
  | ts => union (t :: ts)

def name? : TypeExpr → Option String
  | name n => some n
  | _ => none

def isOptional : TypeExpr → Bool
  | optional _ => true
  | _ => false

/-- Makes a type optional; one that is optional already stays as it is. -/
def toOptional (t : TypeExpr) : TypeExpr := if t.isOptional then t else optional t

mutual

def toJson : TypeExpr → Json
  | name n => .obj [("type", .str "NameExpression"), ("name", .str n)]
  | optional t => .obj [("type", .str "OptionalType"), ("expression", toJson t)]
  | union ts => .obj [("type", .str "UnionType"), ("elements", .arr (toJsonList ts))]
  | apply c ts => .obj
      [("type", .str "TypeApplication"), ("expression", toJson c),
        ("applications", .arr (toJsonList ts))]
  | nullable t => .obj [("type", .str "NullableType"), ("expression", toJson t)]
  | nonNullable t => .obj [("type", .str "NonNullableType"), ("expression", toJson t)]
  | any => .obj [("type", .str "AllLiteral")]

def toJsonList : List TypeExpr → List Json
  | [] => []
  | t :: ts => toJson t :: toJsonList ts

end

def display (t : TypeExpr) : String := t.toJson.render Json.compact

end TypeExpr

end AnnotatedApi
