import AnnotatedApi.Yaml.Style

/-! Writing a value as YAML in block style: two spaces of indentation, and the elements of a list at the
column of their key. -/
namespace AnnotatedApi.Yaml

structure Line where
  text : List Char
  ending : Char := '\n'

/-- Moves the lines two columns to the right; empty ones have no columns. -/
def indent (ls : List Line) : List Line :=
  ls.map fun l => if l.text.isEmpty then l else { l with text := ' ' :: ' ' :: l.text }

/-- Puts `lead` before the first line and the other lines two columns to the right. -/
def hang (lead : List Char) : List Line → List Line
  | [] => [{ text := lead }]
  | l :: rest => { l with text := lead ++ l.text } :: indent rest

def brokenLines : List Char → List Line
  | [] => []
  | c :: cs =>
    if isBreak c then { text := [], ending := c } :: brokenLines cs
    else match brokenLines cs with
      | l :: rest => { l with text := c :: l.text } :: rest
      | [] => [{ text := [c] }]

def hexDigits (width n : Nat) : List Char :=
  let ds := (Nat.toDigits 16 n).map Char.toUpper
  List.replicate (width - ds.length) '0' ++ ds

def escape (c : Char) : List Char :=
  if c = '"' then ['\\', '"']
  else if c = '\\' then ['\\', '\\']
  else if isPrintable c && !isBreak c then [c]
  else if c = '\x00' then ['\\', '0']
  else if c = '\x07' then ['\\', 'a']
  else if c = '\x08' then ['\\', 'b']
  else if c = '\t' then ['\\', 't']
  else if c = '\n' then ['\\', 'n']
  else if c = '\x0b' then ['\\', 'v']
  else if c = '\x0c' then ['\\', 'f']
  else if c = '\r' then ['\\', 'r']
  else if c = '\x1b' then ['\\', 'e']
  else if c = '\u0085' then ['\\', 'N']
  else if c = '\u2028' then ['\\', 'L']
  else if c = '\u2029' then ['\\', 'P']
  else if c.toNat ≤ 0xFF then '\\' :: 'x' :: hexDigits 2 c.toNat
  else '\\' :: 'u' :: hexDigits 4 c.toNat

/-- What follows the bar of a literal block: the width of the indentation if the text starts with a blank,
and what becomes of the line breaks at its end. -/
def literalHints (cs : List Char) : List Char :=
  (if cs.head?.any fun c => isSpace c || isBreak c then ['2'] else []) ++
    match cs.reverse with
    | [] => ['-']
    | [c] => if isBreak c then ['+'] else ['-']
    | c :: d :: _ => if !isBreak c then ['-'] else if isBreak d then ['+'] else []

/-- The lines of a scalar; all but the first stand two columns deeper than its parent. -/
def scalarLines (s : String) : List Line :=
  let cs := s.toList
  match style s with
  | .plain => [{ text := cs }]
  | .single =>
    brokenLines ('\'' :: cs.flatMap (fun c => if c = '\'' then ['\'', '\''] else [c]) ++ ['\''])
  | .double => [{ text := '"' :: cs.flatMap escape ++ ['"'] }]
  | .literal => { text := '|' :: literalHints cs } :: brokenLines cs

/-- A key that fits on its line: no line break, at most 128 bytes. -/
def isSimpleKey (k : String) : Bool := !k.toList.any isBreak && k.utf8ByteSize ≤ 128

def keyText (k : String) : List Char := (scalarLines k).flatMap (·.text)

mutual

/-- The lines of a value, for a place where its first line follows something. -/
def lines : Json → List Line
  | .null => [{ text := ['n', 'u', 'l', 'l'] }]
  | .bool true => [{ text := ['t', 'r', 'u', 'e'] }]
  | .bool false => [{ text := ['f', 'a', 'l', 's', 'e'] }]
  | .num n => [{ text := (n.toText Number.yamlLayout).toList }]
  | .str s => scalarLines s
  | .arr [] => [{ text := ['[', ']'] }]
  | .arr (x :: xs) => hang ['-', ' '] (lines x) ++ itemLines xs
  | .obj [] => [{ text := ['{', '}'] }]
  | .obj ((k, v) :: rest) => memberLines k v ++ memberListLines rest

def itemLines : List Json → List Line
  | [] => []
  | x :: xs => hang ['-', ' '] (lines x) ++ itemLines xs

/-- A member. A list or object with elements starts on the line after its key, unless the key is written
with a question mark. -/
def memberLines (k : String) (v : Json) : List Line :=
  if isSimpleKey k then
    match v with
    | .arr (x :: xs) =>
      { text := keyText k ++ [':'] } :: (hang ['-', ' '] (lines x) ++ itemLines xs)
    | .obj ((k', v') :: rest) =>
      { text := keyText k ++ [':'] } :: indent (memberLines k' v' ++ memberListLines rest)
    | v => hang (keyText k ++ [':', ' ']) (lines v)
  else hang ['?', ' '] (scalarLines k) ++ hang [':', ' '] (lines v)

def memberListLines : List (String × Json) → List Line
  | [] => []
  | (k, v) :: rest => memberLines k v ++ memberListLines rest

end

def render (v : Json) : String := String.ofList ((lines v).flatMap fun l => l.text ++ [l.ending])

end AnnotatedApi.Yaml
