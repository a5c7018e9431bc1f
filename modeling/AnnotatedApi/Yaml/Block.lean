import AnnotatedApi.Yaml.Fold
import AnnotatedApi.Yaml.Node

/-! Scalars in lines of their own below a header. -/
namespace AnnotatedApi.Yaml

/-- A line, and the break that ends it unless the text ends there. -/
structure Row where
  text : List Char
  ending : Option Char

namespace Row

def ofChars : List Char → List Row
  | [] => []
  | c :: cs =>
    if isBreak c then ⟨[], some c⟩ :: ofChars cs
    else match ofChars cs with
      | r :: rest => { r with text := c :: r.text } :: rest
      | [] => [⟨[c], none⟩]

def chars (r : Row) : List Char := r.text ++ r.ending.toList

theorem flatMap_chars_ofChars (cs : List Char) : (ofChars cs).flatMap chars = cs := by
  induction cs with
  | nil => rfl
  | cons c cs ih =>
    unfold ofChars
    split
    · simp [chars, ih]
    · cases h : ofChars cs <;> rw [h] at ih <;> simp_all [chars]

def column (r : Row) : Nat := (r.text.takeWhile isSpace).length

def content (r : Row) : List Char := r.text.dropWhile isSpace

def isTabbed (r : Row) : Bool := r.content.head?.any (· = '\t')

end Row

inductive Chomp where
  | strip
  | clip
  | keep

structure BlockHeader where
  /-- Line ends stay as they are. -/
  literal : Bool
  chomp : Chomp := .clip
  /-- The width of the indentation, if it is given. -/
  width : Option Nat := none

namespace BlockHeader

/-- Takes in one character behind the first one: what becomes of the breaks, or the width, each once. -/
def hint? (h : BlockHeader) (c : Char) : Option BlockHeader :=
  match h.chomp, h.width, c with
  | .clip, _, '-' => some { h with chomp := .strip }
  | .clip, _, '+' => some { h with chomp := .keep }
  | _, none, c =>
    if '1' ≤ c && c ≤ '9' then some { h with width := some (c.toNat - '0'.toNat) } else none
  | _, _, _ => none

def isHint (c : Char) : Bool := c = '-' || c = '+' || c.isDigit

def parse? (literal : Bool) (cs : List Char) : Option BlockHeader := do
  let rest := (cs.dropWhile isHint).dropWhile isWhite
  if rest.head?.all (· = '#') then (cs.takeWhile isHint).foldlM hint? { literal } else none

end BlockHeader

/-- The lines of a block of this indentation without it, and what follows the block. A line
of fewer spaces is empty; with anything else behind them it is the first below the block. No
tab may stand among them. -/
def blockRows? (width : Nat) : List Row → Option (List Row × List Row)
  | [] => some ([], [])
  | r :: rest =>
    if width ≤ r.column then
      (blockRows? width rest).map fun (rows, left) =>
        ({ r with text := r.text.drop width } :: rows, left)
    else if r.isTabbed then none
    else if r.content.isEmpty then
      (blockRows? width rest).map fun (rows, left) => ({ r with text := [] } :: rows, left)
    else some ([], r :: rest)

/-- The indentation of the first line that is not empty, unless an empty line before it is longer. -/
def foundWidth? : List Row → Option Nat
  | [] => some 0
  | r :: rest =>
    if r.isTabbed then none
    else if r.content.isEmpty then (foundWidth? rest).map (max r.column)
    else some r.column

/-- The text of a block. `lead` is the break of the last line with a text, `trail` are those of the empty
lines since, and `leadWhite` says whether that line starts with a blank. -/
def blockText (h : BlockHeader) : (lead trail : List Char) → (leadWhite : Bool) → List Row → List Char
  | lead, trail, _, [] =>
    match h.chomp with
    | .strip => []
    | .clip => lead
    | .keep => lead ++ trail
  | lead, trail, leadWhite, r :: rest =>
    if r.text.isEmpty then blockText h lead (trail ++ r.ending.toList) leadWhite rest
    else
      let white := r.text.head?.any isWhite
      let gap :=
        if !h.literal && lead = ['\n'] && !leadWhite && !white then
          if trail.isEmpty then [' '] else []
        else lead
      gap ++ trail ++ r.text ++ blockText h r.ending.toList [] white rest

/-- A block from behind its first sign, and what follows it. It belongs to the column `parent`, if to
any, and its lines stand deeper. -/
def block? (literal : Bool) (parent : Option Nat) (cs : List Char) : Option (Node × List Char) := do
  let rows := Row.ofChars cs
  let h ← BlockHeader.parse? literal (rows.head?.elim [] Row.text)
  let width ← match h.width with
    | some n => some (parent.getD 0 + n)
    | none => (foundWidth? rows.tail).map fun found => max 1 (max (parent.elim 0 (· + 1)) found)
  let (body, left) ← blockRows? width rows.tail
  return (.text (String.ofList (blockText h [] [] false body)), left.flatMap Row.chars)

end AnnotatedApi.Yaml
