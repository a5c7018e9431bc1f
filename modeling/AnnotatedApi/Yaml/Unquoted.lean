import AnnotatedApi.Yaml.Quoted

/-! Plain scalars: they have no signs of their own, so that what stands around them says where they end. -/
namespace AnnotatedApi.Yaml

structure Unquoted where
  /-- Up to its last character, with its line ends. -/
  text : List Char
  rest : List Char
  /-- Line ends follow it, and are no part of `rest`. -/
  broken : Bool

def startsPlain (inFlow : Bool) : List Char → Bool
  | [] => false
  | c :: cs =>
    if c = '-' then !startsWithGap cs
    else if c = '?' || c = ':' then !inFlow && !startsWithGap cs
    else !isGap c && c ∉ indicators

def flowSigns : List Char := [',', '[', ']', '{', '}']

/-- A plain scalar whose lines stand at column `indent` or deeper, unless it is between brackets. It is
read on from `column`; `gap` is what was passed since its last character. It ends at a colon with a gap
behind it, at a hash with a gap before it, and between brackets at a bracket or comma. -/
def unquoted? (inFlow : Bool) (indent : Nat) :
    (column : Nat) → (gap : List Char) → List Char → Option Unquoted
  | _, gap, [] => some ⟨[], [], gap.any isBreak⟩
  | column, gap, c :: cs =>
    let stop : Option Unquoted := some ⟨[], c :: cs, gap.any isBreak⟩
    if isBreak c then unquoted? inFlow indent 0 (gap ++ [c]) cs
    else if isWhite c then
      if c = '\t' && column < indent && gap.any isBreak then none
      else unquoted? inFlow indent (column + 1) (gap ++ [c]) cs
    else if !gap.isEmpty && (!inFlow && column < indent || column = 0 && atBound (c :: cs) || c = '#') then
      stop
    else if inFlow && c = ':' && cs.head?.any (fun d => d = '?' || d ∈ flowSigns) then none
    else if c = ':' && startsWithGap cs || inFlow && c ∈ flowSigns then stop
    else (unquoted? inFlow indent (column + 1) [] cs).map fun u => { u with text := gap ++ c :: u.text }

namespace Unquoted

def node (u : Unquoted) : Node := .plain (folded (u.text.map .written))

end Unquoted

end AnnotatedApi.Yaml
