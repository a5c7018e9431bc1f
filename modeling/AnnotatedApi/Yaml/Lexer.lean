import AnnotatedApi.Yaml.Block
import AnnotatedApi.Yaml.Unquoted

/-! Splitting a YAML text into tokens. Columns are no part of them: where a column alone opens or closes a
collection, a token stands for it. Whether something is a key shows only at the colon behind it. So a lexer
remembers the place where a key may have started, and puts the token for it there. -/
namespace AnnotatedApi.Yaml

inductive Token where
  | scalar (x : Node)
  /-- What follows is a list by its columns. -/
  | blockList
  /-- What follows is a map by its columns. -/
  | blockMap
  /-- The columns end a list or map. -/
  | blockEnd
  /-- Before an element of a list by columns. -/
  | entry
  /-- Before the key of an entry. -/
  | key
  /-- Before the value of an entry. -/
  | value
  | openList
  | closeList
  | openMap
  | closeMap
  | comma
  /-- The sign that starts a document. -/
  | start
  /-- The sign that ends a document. -/
  | finish

structure Place where
  line : Nat
  column : Nat
  /-- Nothing but a key can stand there. -/
  required : Bool

/-- What was read outside of brackets, or since a bracket that is still open. Tokens stand last first. -/
structure Level where
  /-- The tokens up to `place`. -/
  before : List Token := []
  /-- The tokens from `place` on. -/
  since : List Token := []
  place : Option Place := none

namespace Level

def tokens (l : Level) : List Token := l.since ++ l.before

def emit (t : Token) (l : Level) : Level := { l with since := t :: l.since }

/-- Whatever was read so far, it was no key. -/
def settle? (l : Level) : Option Level :=
  if l.place.any (·.required) then none else some { before := l.tokens }

def insert (ts : List Token) (l : Level) : Level := { before := l.since ++ ts ++ l.before }

end Level

structure Lexer where
  rest : List Char
  line : Nat := 0
  column : Nat := 0
  /-- The columns of the lists and maps that are open by their columns, the innermost first. -/
  indents : List Nat := []
  /-- A key may start here, and so may a list or map by columns. -/
  mayOpen : Bool := true
  level : Level := {}
  /-- The levels around the open brackets, the innermost first. -/
  outer : List Level := []

namespace Lexer

def inFlow (s : Lexer) : Bool := !s.outer.isEmpty

def emit (t : Token) (s : Lexer) : Lexer := { s with level := s.level.emit t }

def pass : Nat → Lexer → Lexer
  | 0, s => s
  | n + 1, s =>
    match s.rest with
    | [] => s
    | c :: cs =>
      if isBreak c then pass n { s with rest := cs, line := s.line + 1, column := 0 }
      else pass n { s with rest := cs, column := s.column + 1 }

def upTo (rest : List Char) (s : Lexer) : Lexer := s.pass (s.rest.length - rest.length)

/-- Moves on over blanks, breaks and comments. Where a list or map may open by its column, only spaces
say which column it is, and no tab may stand there. -/
def skip : (inComment : Bool) → Lexer → List Char → Lexer
  | _, s, [] => { s with rest := [] }
  | inComment, s, c :: cs =>
    if isBreak c then
      skip false { s with line := s.line + 1, column := 0, mayOpen := s.mayOpen || !s.inFlow } cs
    else if inComment || c = ' ' || c = '\t' && (s.inFlow || !s.mayOpen) ||
        c = '\ufeff' && s.column = 0 then
      skip inComment { s with column := s.column + 1 } cs
    else if c = '#' then skip true { s with column := s.column + 1 } cs
    else { s with rest := c :: cs }

def close (p : Nat → Bool) (s : Lexer) : Lexer :=
  if s.inFlow then s
  else
    let ends := List.replicate (s.indents.takeWhile p).length Token.blockEnd
    { s with indents := s.indents.dropWhile p, level := { s.level with since := ends ++ s.level.since } }

/-- A list or map at this column is one of its own, and not the innermost open one. -/
def isDeeper (column : Nat) (s : Lexer) : Bool := !s.inFlow && s.indents.head?.all (· < column)

/-- Opens a list or map at the present column, unless it is open already. -/
def open? (t : Token) (s : Lexer) : Option Lexer :=
  if s.inFlow then some s
  else if !s.mayOpen then none
  else if s.isDeeper s.column then some { s.emit t with indents := s.column :: s.indents }
  else some s

def settle? (s : Lexer) : Option Lexer := s.level.settle?.map fun l => { s with level := l }

def mark? (s : Lexer) : Option Lexer :=
  if s.mayOpen then
    let required := !s.inFlow && s.indents.head? = some s.column
    s.settle?.map fun s =>
      { s with level := { s.level with place := some ⟨s.line, s.column, required⟩ } }
  else some s

def sign (n : Nat) (t : Token) (mayOpen : Bool) (s : Lexer) : Lexer :=
  { (s.emit t).pass n with mayOpen }

def scalar (x : Node) (rest : List Char) (mayOpen : Bool) (s : Lexer) : Lexer :=
  { (s.emit (.scalar x)).upTo rest with mayOpen }

def enter? (t : Token) (s : Lexer) : Option Lexer :=
  s.mark?.map fun s =>
    let s := s.sign 1 t true
    { s with level := {}, outer := s.level :: s.outer }

def leave? (t : Token) (s : Lexer) : Option Lexer := do
  let s ← s.settle?
  match s.outer with
  | [] => none
  | l :: outer =>
    return { s with level := { l with since := s.level.tokens ++ l.since }, outer }.sign 1 t false

/-- A key ends on its line, after at most 1024 characters. -/
def reaches (p : Place) (s : Lexer) : Bool := p.line = s.line && s.column ≤ p.column + 1024

/-- A colon. With a key before it on its line, it takes no list or map by columns behind it there. -/
def value? (s : Lexer) : Option Lexer :=
  match s.level.place.filter s.reaches with
  | some p =>
    let (opening, indents) :=
      if s.isDeeper p.column then ([Token.blockMap], p.column :: s.indents) else ([], s.indents)
    some ({ s with indents, level := s.level.insert (.key :: opening) }.sign 1 .value false)
  | none => do
    let s ← s.settle?
    let s ← s.open? .blockMap
    return s.sign 1 .value !s.inFlow

def step? (s : Lexer) : Option Lexer :=
  match s.rest with
  | [] => none
  | c :: cs =>
    if s.column = 0 && hasMark startMark s.rest then
      (s.close fun _ => true).settle?.map (sign 3 .start false)
    else if s.column = 0 && hasMark endMark s.rest then
      (s.close fun _ => true).settle?.map (sign 3 .finish false)
    else if c = '[' then s.enter? .openList
    else if c = '{' then s.enter? .openMap
    else if c = ']' then s.leave? .closeList
    else if c = '}' then s.leave? .closeMap
    else if c = ',' then s.settle?.map (sign 1 .comma true)
    else if c = '-' && startsWithGap cs then do
      let s ← s.open? .blockList
      let s ← s.settle?
      return s.sign 1 .entry true
    else if c = '?' && (s.inFlow || startsWithGap cs) then do
      let s ← s.open? .blockMap
      let s ← s.settle?
      return s.sign 1 .key !s.inFlow
    else if c = ':' && (s.inFlow || startsWithGap cs) then s.value?
    else if (c = '|' || c = '>') && !s.inFlow then do
      let s ← s.settle?
      let (x, rest) ← block? (c = '|') s.indents.head? cs
      return s.scalar x rest true
    else if c = '\'' || c = '"' then do
      let s ← s.mark?
      let (x, rest) ← quoted? s.rest
      return s.scalar x rest false
    else if startsPlain s.inFlow s.rest then do
      let s ← s.mark?
      let u ← unquoted? s.inFlow (s.indents.head?.elim 0 (· + 1)) s.column [] s.rest
      return s.scalar u.node u.rest u.broken
    else none

def run? : (fuel : Nat) → Lexer → Option (List Token)
  | 0, _ => none
  | fuel + 1, s =>
    let s := s.skip false s.rest
    let s := s.close (s.column < ·)
    if s.rest.isEmpty then
      if s.inFlow then none
      else (s.close fun _ => true).settle?.map (·.level.tokens.reverse)
    else s.step?.bind (run? fuel)

end Lexer

/-- Every break is a line feed, but for the two separators of lines and paragraphs. -/
def unifyBreaks : List Char → List Char
  | '\r' :: '\n' :: cs => '\n' :: unifyBreaks cs
  | c :: cs => (if c = '\r' || c = '\u0085' then '\n' else c) :: unifyBreaks cs
  | [] => []

/-- The tokens of a text. Each takes at least one character of it. -/
def Token.scan? (cs : List Char) : Option (List Token) :=
  Lexer.run? (cs.length + 1) { rest := unifyBreaks cs }

end AnnotatedApi.Yaml
