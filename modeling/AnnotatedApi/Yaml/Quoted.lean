import AnnotatedApi.Yaml.Fold
import AnnotatedApi.Yaml.Node

/-! Scalars between quotes. They may run over lines, but not over the bounds of a document. -/
namespace AnnotatedApi.Yaml

def startMark : List Char := ['-', '-', '-']

def endMark : List Char := ['.', '.', '.']

def hasMark (mark cs : List Char) : Bool := mark.isPrefixOf cs && startsWithGap (cs.drop mark.length)

/-- At the start of a line, a document ends here. -/
def atBound (cs : List Char) : Bool := hasMark startMark cs || hasMark endMark cs

/-- A text between single quotes, from behind the first one: a quote is written twice. -/
def single? : List Char → Option (List Piece × List Char)
  | [] => none
  | '\'' :: '\'' :: cs => (single? cs).map fun (ps, rest) => (.written '\'' :: ps, rest)
  | c :: cs =>
    if c = '\'' then some ([], cs)
    else if isBreak c && atBound cs then none
    else (single? cs).map fun (ps, rest) => (.written c :: ps, rest)

/-- The character whose number has the next `width` digits of base 16, and their count. -/
def codePoint? (width : Nat) (cs : List Char) : Option (Piece × Nat) := do
  if cs.length < width then none
  let n ← ofDigits? 16 (cs.take width)
  if h : n.isValidChar then some (.meant (Char.ofNatAux n h), width + 1) else none

/-- The meaning of what follows a backslash, and of how many characters it is that of. -/
def unescape? : List Char → Option (Piece × Nat)
  | [] => none
  | c :: cs =>
    let one (c : Char) := some (Piece.meant c, 1)
    match c with
    | '0' => one '\x00'
    | 'a' => one '\x07'
    | 'b' => one '\x08'
    | 't' => one '\t'
    | '\t' => one '\t'
    | 'n' => one '\n'
    | 'v' => one '\x0b'
    | 'f' => one '\x0c'
    | 'r' => one '\r'
    | 'e' => one '\x1b'
    | ' ' => one ' '
    | '"' => one '"'
    | '/' => one '/'
    | '\\' => one '\\'
    | 'N' => one '\u0085'
    | '_' => one '\u00a0'
    | 'L' => one '\u2028'
    | 'P' => one '\u2029'
    | 'x' => codePoint? 2 cs
    | 'u' => codePoint? 4 cs
    | 'U' => codePoint? 8 cs
    | c => if isBreak c && !atBound cs then some (.joint, 1) else none

def double? : List Char → Option (List Piece × List Char)
  | [] => none
  | c :: cs =>
    if c = '"' then some ([], cs)
    else if c = '\\' then
      (unescape? cs).bind fun (p, n) => (double? (cs.drop n)).map fun (ps, rest) => (p :: ps, rest)
    else if isBreak c && atBound cs then none
    else (double? cs).map fun (ps, rest) => (.written c :: ps, rest)
termination_by cs => cs.length

def quoted? : List Char → Option (Node × List Char)
  | '\'' :: cs => (single? cs).map fun (ps, rest) => (.text (folded ps), rest)
  | '"' :: cs => (double? cs).map fun (ps, rest) => (.text (folded ps), rest)
  | _ => none

end AnnotatedApi.Yaml
