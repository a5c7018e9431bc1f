import AnnotatedApi.Text.Basic
import AnnotatedApi.TypeExpr.Codec

/-! Annotations: the tags of a documentation comment, and the comment as a block of them. -/
namespace AnnotatedApi

/-- One tag, such as `@param {string} query.q - Search text`. -/
structure Tag where
  /-- The kind of tag, without `@`. -/
  title : String
  description : String := ""
  name : Option String := none
  type : Option TypeExpr := none
  /-- What is wrong with the tag; a tag without errors is well formed. -/
  errors : List String := []

structure Block where
  description : String := ""
  tags : List Tag

inductive BlockKind where
  | route
  | schema
  | inert
deriving DecidableEq

namespace Tag

def toJson (t : Tag) : Json :=
  .ofMembers [
    ("title", some (.str t.title)),
    ("description", some (.str t.description)),
    ("name", t.name.map .str),
    ("type", t.type.map (·.toJson)),
    ("errors", if t.errors.isEmpty then none else some (.arr (t.errors.map .str)))]

variable {σ : Type} [Source σ]

def decode (v : σ) : Option Tag := do
  let r ← Source.record? v
  r.atMost 5
  return {
    title := ← r.required 0 "title" Source.text?
    description := ← r.orElse 1 "description" "" Source.text?
    name := ← r.orElse 2 "name" none (Source.optional? Source.text?)
    type := ← r.orElse 3 "type" none (Source.optional? TypeExpr.decode)
    errors := ← r.orElse 4 "errors" [] Source.texts? }

end Tag

namespace Block

def toJson (b : Block) : Json :=
  .obj [("description", .str b.description), ("tags", .arr (b.tags.map (·.toJson)))]

def decode {σ : Type} [Source σ] (v : σ) : Option Block := do
  let r ← Source.record? v
  r.atMost 2
  return {
    description := ← r.orElse 0 "description" "" Source.text?
    tags := ← r.required 1 "tags" (Source.list? Tag.decode) }

/-- Some tag has this title, well formed or not. -/
def hasTag (b : Block) (title : String) : Bool := b.tags.any (·.title = title)

def kind (b : Block) : BlockKind :=
  if b.hasTag "event" then .route
  else if b.hasTag "typedef" then .schema
  else .inert

/-- How messages name a block: by the first line of its description, or by its tags. -/
def summary (b : Block) : String :=
  match (Text.lines b.description.toList).head? with
  | some line => "block '" ++ String.ofList line ++ "'"
  | none =>
    let tags := b.tags.map fun t => "@" ++ t.title ++ t.name.elim "" (" " ++ ·)
    "block [" ++ ", ".intercalate tags ++ "]"

end Block

end AnnotatedApi
