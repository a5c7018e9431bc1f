import AnnotatedApi.Text.Basic
import AnnotatedApi.Text.Letter
import AnnotatedApi.TypeExpr.Basic

/-! Reading a type expression. The grammar has four levels: an alternation joins suffixed types with
`|`; a suffixed type is a marked one with any number of `[]` and at most one `=` behind it; a marked
type is an atom, or a suffixed type behind `?` or `!`; an atom is a name, a name with arguments, `*`,
or an alternation in parentheses. Blanks may stand in front of every token.

Every step returns what follows it, which is shorter. A call on the same text is always one level down,
so reading ends. -/
namespace AnnotatedApi

inductive TypeError where
  | empty
  | unexpected (found : Char) (offset : Nat)
  | unexpectedEnd
  | missing (wanted found : Char) (offset : Nat)
  | missingAtEnd (wanted : Char)
deriving DecidableEq

def TypeError.message : TypeError → String
  | empty => "empty type expression"
  | unexpected c n => s!"unexpected '{c}' at offset {n}"
  | unexpectedEnd => "unexpected end of type expression"
  | missing w c n => s!"expected '{w}' but found '{c}' at offset {n}"
  | missingAtEnd w => s!"expected '{w}' but reached the end"

namespace TypeExpr

open Text

def isNameStart (c : Char) : Bool := isLetter c || c = '_' || c = '$'

def isNamePart (c : Char) : Bool := isAlphanumeric c || c = '_' || c = '$'

/-- What follows a step that has read something. -/
abbrev After (text : List Char) := { rest : List Char // rest.length < text.length }

/-- What follows a step that may have read nothing. -/
abbrev From (text : List Char) := { rest : List Char // rest.length ≤ text.length }

/-- What stops the reading, with the text from there on. -/
inductive Fault where
  | unexpected (rest : List Char)
  | missing (wanted : Char) (rest : List Char)

def Fault.locate (text : List Char) : Fault → TypeError
  | unexpected [] => .unexpectedEnd
  | unexpected (c :: rest) => .unexpected c (text.length - (c :: rest).length)
  | missing w [] => .missingAtEnd w
  | missing w (c :: rest) => .missing w c (text.length - (c :: rest).length)

def token? (s : List Char) : Option (Char × After s) :=
  match h : trimStart s with
  | [] => none
  | c :: rest => some (c, ⟨rest, by
      have := length_trimStart_le s
      simp only [h, List.length_cons] at this; omega⟩)

def eat? (c : Char) (s : List Char) : Option (After s) :=
  (token? s).bind fun (c', rest) => if c' = c then some rest else none

def expect (c : Char) (s : List Char) : Except Fault (After s) :=
  (eat? c s).elim (.error (.missing c (trimStart s))) .ok

def opening? (s : List Char) : Option (After s) :=
  (token? s).bind fun (c, ⟨rest, h⟩) =>
    if c = '<' then some ⟨rest, h⟩
    else if c = '.' then
      match rest, h with
      | '<' :: rest, h => some ⟨rest, by simp only [List.length_cons] at h; omega⟩
      | _, _ => none
    else none

/-- What follows `[]`, whose brackets touch. -/
def brackets? (s : List Char) : Option (After s) :=
  (token? s).bind fun (c, ⟨rest, h⟩) =>
    if c = '[' then
      match rest, h with
      | ']' :: rest, h => some ⟨rest, by simp only [List.length_cons] at h; omega⟩
      | _, _ => none
    else none

def arrays (t : TypeExpr) (s : List Char) : TypeExpr × From s :=
  match brackets? s with
  | some ⟨r, h⟩ =>
    let (t', ⟨r', h'⟩) := arrays (arrayOf t) r
    (t', ⟨r', by omega⟩)
  | none => (t, ⟨s, Nat.le_refl _⟩)
termination_by s.length

/-- Makes a type optional if `=` follows. -/
def mark (t : TypeExpr) (s : List Char) : TypeExpr × From s :=
  match eat? '=' s with
  | some ⟨r, h⟩ => (optional t, ⟨r, by omega⟩)
  | none => (t, ⟨s, Nat.le_refl _⟩)

/-- The rest of a name: name characters, and points that a name can start behind. -/
def nameTail : (s : List Char) → List Char × From s
  | [] => ([], ⟨[], Nat.le_refl _⟩)
  | c :: rest =>
    if isNamePart c || c = '.' && rest.head?.any isNameStart then
      let (cs, ⟨r, h⟩) := nameTail rest
      (c :: cs, ⟨r, by simp only [List.length_cons]; omega⟩)
    else ([], ⟨c :: rest, Nat.le_refl _⟩)

mutual

def alternation (s : List Char) : Except Fault (TypeExpr × After s) := do
  let (t, ⟨r, h⟩) ← suffixed s
  let (ts, ⟨r', h'⟩) ← alternatives r
  return (ofAlternatives t ts, ⟨r', by omega⟩)
termination_by 8 * s.length + 3

def alternatives (s : List Char) : Except Fault (List TypeExpr × From s) :=
  match eat? '|' s with
  | some ⟨r, h⟩ => do
    let (t, ⟨r1, h1⟩) ← suffixed r
    let (ts, ⟨r2, h2⟩) ← alternatives r1
    return (t :: ts, ⟨r2, by omega⟩)
  | none => return ([], ⟨s, Nat.le_refl _⟩)
termination_by 8 * s.length + 4

def suffixed (s : List Char) : Except Fault (TypeExpr × After s) := do
  let (t, ⟨r, h⟩) ← marked s
  let (t1, ⟨r1, h1⟩) := arrays t r
  let (t2, ⟨r2, h2⟩) := mark t1 r1
  return (t2, ⟨r2, by omega⟩)
termination_by 8 * s.length + 2

def marked (s : List Char) : Except Fault (TypeExpr × After s) :=
  match eat? '?' s, eat? '!' s with
  | some ⟨r, h⟩, _ => do
    let (t, ⟨r1, h1⟩) ← suffixed r
    return (nullable t, ⟨r1, by omega⟩)
  | none, some ⟨r, h⟩ => do
    let (t, ⟨r1, h1⟩) ← suffixed r
    return (nonNullable t, ⟨r1, by omega⟩)
  | none, none => atom s
termination_by 8 * s.length + 1

def atom (s : List Char) : Except Fault (TypeExpr × After s) :=
  match token? s with
  | none => .error (.unexpected [])
  | some (c, ⟨r, h⟩) =>
    if c = '(' then do
      let (t, ⟨r1, h1⟩) ← alternation r
      let ⟨r2, h2⟩ ← expect ')' r1
      return (t, ⟨r2, by omega⟩)
    else if c = '*' then return (any, ⟨r, h⟩)
    else if isNameStart c then
      let (cs, ⟨r1, h1⟩) := nameTail r
      let n := name (String.ofList (c :: cs))
      match opening? r1 with
      | some ⟨r2, h2⟩ => do
        let (ts, ⟨r3, h3⟩) ← arguments r2
        return (apply n ts, ⟨r3, by omega⟩)
      | none => return (n, ⟨r1, by omega⟩)
    else .error (.unexpected (c :: r))
termination_by 8 * s.length

def arguments (s : List Char) : Except Fault (List TypeExpr × After s) := do
  let (t, ⟨r, h⟩) ← alternation s
  match eat? ',' r with
  | some ⟨r1, h1⟩ =>
    let (ts, ⟨r2, h2⟩) ← arguments r1
    return (t :: ts, ⟨r2, by omega⟩)
  | none =>
    let ⟨r1, h1⟩ ← expect '>' r
    return ([t], ⟨r1, by omega⟩)
termination_by 8 * s.length + 4

end

def parseChars (s : List Char) : Except TypeError TypeExpr :=
  if (trimStart s).isEmpty then .error .empty
  else match alternation s with
    | .error f => .error (f.locate s)
    | .ok (t, ⟨r, _⟩) =>
      if (trimStart r).isEmpty then .ok t else .error ((Fault.unexpected (trimStart r)).locate s)

def parse (source : String) : Except TypeError TypeExpr := parseChars source.toList

end TypeExpr

end AnnotatedApi
