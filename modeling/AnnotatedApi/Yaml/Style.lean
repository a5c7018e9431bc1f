import AnnotatedApi.Yaml.Scalar

/-! How a text is written as a scalar: plain, between single or double quotes, or as a literal block. A
style is chosen so that the text is read back as that text. -/
namespace AnnotatedApi.Yaml

inductive Style where
  | plain
  | single
  | double
  | literal
deriving DecidableEq

def isBreak (c : Char) : Bool :=
  c = '\n' || c = '\r' || c = '\u0085' || c = '\u2028' || c = '\u2029'

def isPrintable (c : Char) : Bool :=
  let n := c.toNat
  n = 0xA || 0x20 ≤ n && n ≤ 0x7E || 0xA0 ≤ n && n ≤ 0xD7FF
    || 0xE000 ≤ n && n ≤ 0xFFFD && n ≠ 0xFEFF || 0x10000 ≤ n

def isGap (c : Char) : Bool := c = ' ' || c = '\t' || c = '\x00' || isBreak c

def startsWithGap (cs : List Char) : Bool := cs.head?.all isGap

def indicators : List Char :=
  ['#', ',', '[', ']', '{', '}', '&', '*', '!', '|', '>', '\'', '"', '%', '@', '\x60']

/-- A colon with a gap behind it, or a hash with a gap before it. -/
def hasIndicator : (afterGap : Bool) → List Char → Bool
  | _, [] => false
  | afterGap, c :: cs =>
    c = ':' && startsWithGap cs || c = '#' && afterGap || hasIndicator (isGap c) cs

def hasMeaning (cs : List Char) : Bool :=
  ['-', '-', '-'] <+: cs || ['.', '.', '.'] <+: cs || hasIndicator false cs ||
    match cs with
    | [] => false
    | c :: rest => c ∈ indicators || (c = '-' || c = '?') && startsWithGap rest

def hasPair (p q : Char → Bool) : List Char → Bool
  | c :: d :: cs => p c && q d || hasPair p q (d :: cs)
  | _ => false

def isSpace (c : Char) : Bool := c = ' '

/-- Only double quotes can hold the text: it has a character to be escaped, or a space that would be
lost before a line break. -/
def needsEscapes (cs : List Char) : Bool := cs.any (!isPrintable ·) || hasPair isSpace isBreak cs

def allowsPlain (cs : List Char) : Bool :=
  !(needsEscapes cs || cs.any isBreak || cs.head?.any isSpace || cs.getLast?.any isSpace
    || hasMeaning cs)

def allowsSingle (cs : List Char) : Bool := !(needsEscapes cs || hasPair isBreak isSpace cs)

def allowsLiteral (cs : List Char) : Bool := !(needsEscapes cs || cs.getLast?.any isSpace)

/-- A plain scalar of this text would be read as something else. -/
def isAmbiguous (s : String) : Bool :=
  isPadded s.toList ||
    match resolve s with
    | .text => false
    | _ => true

/-- A text with line ends becomes a literal block, an ambiguous one is quoted, any other stays plain, if
that style can hold it. -/
def style (s : String) : Style :=
  let cs := s.toList
  if '\n' ∈ cs then
    if allowsLiteral cs then .literal else .double
  else if !isAmbiguous s && allowsPlain cs then .plain
  else if allowsSingle cs then .single
  else .double

end AnnotatedApi.Yaml
