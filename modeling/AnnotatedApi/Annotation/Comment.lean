import AnnotatedApi.Annotation.TagParser

/-! Finding the documentation comments of a text, and taking each apart into lines and tags. -/
namespace AnnotatedApi

open Text

structure Comments where
  bodies : List (List Char) := []
  unterminated : Bool := false

/-- The comments of a text: from `/**` up to the next `*/`. A slash right behind the opening closes an
empty plain comment instead. -/
def Comments.extract (text : List Char) : Comments :=
  match h : cut? ['/', '*', '*'] text with
  | none => {}
  | some (_, '/' :: rest) =>
    have : rest.length < text.length := Nat.lt_of_succ_lt (length_lt_of_cut? h)
    extract rest
  | some (_, rest) =>
    match h' : cut? ['*', '/'] rest with
    | none => { unterminated := true }
    | some (body, rest') =>
      have : rest'.length < text.length := Nat.lt_trans (length_lt_of_cut? h') (length_lt_of_cut? h)
      let found := extract rest'
      { found with bodies := body :: found.bodies }
termination_by text.length

/-- A line without its decoration: the blanks in front, one star, one space. -/
def unwrapLine (line : List Char) : List Char :=
  let line := trimStart line
  let line := (['*'].isPrefixOf? line).getD line
  ([' '].isPrefixOf? line).getD line

def opensTag (line : List Char) : Bool := (trimStart line).head? = some '@'

/-- The lines before the first tag, and the lines of each tag. -/
def sections : List (List Char) → List (List Char) × List (List (List Char))
  | [] => ([], [])
  | line :: rest =>
    let (before, tags) := sections rest
    if opensTag line then ([], (trimStart line :: before) :: tags) else (line :: before, tags)

namespace Block

def parse (body : List Char) : Block :=
  let (before, tags) := sections ((lines body).map unwrapLine)
  { description := String.ofList (trim (joinWith '\n' before))
    tags := tags.map fun ls => Tag.parse (joinWith '\n' ls) }

end Block

structure Annotations where
  blocks : List Block
  unterminated : Bool

def Annotations.parse (text : String) : Annotations :=
  let comments := Comments.extract text.toList
  ⟨comments.bodies.map Block.parse, comments.unterminated⟩

end AnnotatedApi
