import AnnotatedApi.Annotation.Basic
import AnnotatedApi.TypeExpr.Parser

/-! Taking a tag apart: its title, then a type in braces if the title admits one, then a name if the
title asks for one, then the description. What is wrong is recorded in the tag. -/
namespace AnnotatedApi

inductive TagFault where
  | badType (source : String) (error : TypeError)
  | unbalanced
  | unnamed
deriving DecidableEq

def TagFault.message : TagFault → String
  | badType source error => s!"Invalid type expression '{source}': " ++ error.message
  | unbalanced => "Braces are not balanced"
  | unnamed => "Missing or invalid tag name"

namespace Tag

open Text

def typedTitles : List String :=
  ["param", "arg", "argument", "property", "prop", "returns", "return", "typedef", "type",
   "throws", "exception", "enum", "member", "var"]

def namedTitles : List String := ["param", "arg", "argument", "property", "prop", "typedef"]

/-- What stands before the brace that closes the one in front of the text, and what follows it.
Another `depth` braces are open. -/
def braced? : (depth : Nat) → List Char → Option (List Char × List Char)
  | _, [] => none
  | depth, c :: cs =>
    if c = '{' then (braced? (depth + 1) cs).map fun (inner, rest) => (c :: inner, rest)
    else if c = '}' then
      match depth with
      | 0 => some ([], cs)
      | depth + 1 => (braced? depth cs).map fun (inner, rest) => (c :: inner, rest)
    else (braced? depth cs).map fun (inner, rest) => (c :: inner, rest)

structure TypePart where
  type : Option TypeExpr := none
  faults : List TagFault := []
  rest : List Char

def typePart (title : String) (cs : List Char) : TypePart :=
  match cs with
  | '{' :: inside =>
    if title ∈ typedTitles then
      match braced? 0 inside with
      | some (source, rest) =>
        match TypeExpr.parseChars source with
        | .ok t => { type := some t, rest := trimStart rest }
        | .error e => {
            faults := [.badType (String.ofList (trim source)) e], rest := trimStart rest }
      | none => { faults := [.unbalanced], rest := [] }
    else { rest := cs }
  | _ => { rest := cs }

structure NamePart where
  name : Option String
  bracketed : Bool
  rest : List Char

def name? (cs : List Char) : Option String := if cs.isEmpty then none else some (String.ofList cs)

/-- A name up to the next blank, or `[name]`, or `[name=default]` up to the first closing bracket. -/
def namePart (cs : List Char) : NamePart :=
  match cs with
  | '[' :: inside =>
    match cut? [']'] inside with
    | some (inner, rest) => ⟨name? (trim (inner.takeWhile (· ≠ '='))), true, rest⟩
    | none => ⟨none, true, []⟩
  | _ => ⟨name? (cs.takeWhile (!isBlank ·)), false, cs.dropWhile (!isBlank ·)⟩

/-- Drops a hyphen that a blank follows, with the blanks. -/
def dropHyphen (cs : List Char) : List Char :=
  match cs with
  | '-' :: rest => if rest.head?.any isBlank then trimStart rest else cs
  | _ => cs

def parse (raw : List Char) : Tag :=
  let body := (['@'].isPrefixOf? (trimStart raw)).getD raw
  let title := String.ofList (body.takeWhile (!isBlank ·))
  let part := typePart title (trimStart (body.dropWhile (!isBlank ·)))
  if title ∈ namedTitles then
    let named := namePart part.rest
    let faults := part.faults ++ if named.name.isNone then [.unnamed] else []
    { title
      description := String.ofList (dropHyphen (trim named.rest))
      name := named.name
      type := if named.bracketed then part.type.map (·.toOptional) else part.type
      errors := faults.map (·.message) }
  else
    { title
      description := String.ofList (dropHyphen (trim part.rest))
      type := part.type
      errors := part.faults.map (·.message) }

end Tag

end AnnotatedApi
