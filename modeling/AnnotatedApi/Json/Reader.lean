import AnnotatedApi.Json.Node
import AnnotatedApi.Json.Numeral

/-! Reading strict JSON. Each step hands on what follows it, which is shorter, so the recursion ends. -/
namespace AnnotatedApi.Json

/-- Containers may stand this deep in each other. -/
def nestingLimit : Nat := 127

abbrev Rest (text : List Char) := { rest : List Char // rest.length < text.length }

def isSpace (c : Char) : Bool := c = ' ' || c = '\n' || c = '\t' || c = '\r'

def skipSpace (cs : List Char) : List Char := cs.dropWhile isSpace

theorem length_skipSpace (cs : List Char) : (skipSpace cs).length ≤ cs.length :=
  (List.dropWhile_suffix _).length_le

def hexDigit? (c : Char) : Option Nat :=
  if '0' ≤ c ∧ c ≤ '9' then some (c.toNat - '0'.toNat)
  else if 'a' ≤ c ∧ c ≤ 'f' then some (c.toNat - 'a'.toNat + 10)
  else if 'A' ≤ c ∧ c ≤ 'F' then some (c.toNat - 'A'.toNat + 10)
  else none

def unescape? (c : Char) : Option Char :=
  if c = '"' then some '"'
  else if c = '\\' then some '\\'
  else if c = '/' then some '/'
  else if c = 'b' then some '\x08'
  else if c = 'f' then some '\x0c'
  else if c = 'n' then some '\n'
  else if c = 'r' then some '\r'
  else if c = 't' then some '\t'
  else none

/-- The code units of a string up to its closing quote, and what follows the quote. Only a `\u` escape
gives a surrogate. -/
def units? : (cs : List Char) → Option (List Nat × Rest cs)
  | [] => none
  | '"' :: rest => some ([], ⟨rest, by simp⟩)
  | '\\' :: 'u' :: a :: b :: c :: d :: rest => do
    let u := 4096 * (← hexDigit? a) + 256 * (← hexDigit? b) + 16 * (← hexDigit? c) + (← hexDigit? d)
    let (us, ⟨r, h⟩) ← units? rest
    return (u :: us, ⟨r, by simp only [List.length_cons]; omega⟩)
  | '\\' :: c :: rest => do
    let e ← unescape? c
    let (us, ⟨r, h⟩) ← units? rest
    return (e.toNat :: us, ⟨r, by simp only [List.length_cons]; omega⟩)
  | c :: rest => do
    if c.toNat < 0x20 || c = '\\' then none
    let (us, ⟨r, h⟩) ← units? rest
    return (c.toNat :: us, ⟨r, by simp only [List.length_cons]; omega⟩)

def isHighSurrogate (u : Nat) : Bool := 0xD800 ≤ u && u < 0xDC00

def isLowSurrogate (u : Nat) : Bool := 0xDC00 ≤ u && u < 0xE000

/-- Joins surrogate pairs; a surrogate without its partner stands for nothing. -/
def ofUnits? : List Nat → Option (List Char)
  | [] => some []
  | [u] => if isHighSurrogate u || isLowSurrogate u then none else some [Char.ofNat u]
  | u :: v :: rest =>
    if isHighSurrogate u then
      if isLowSurrogate v then
        (ofUnits? rest).map (Char.ofNat (0x10000 + 1024 * (u - 0xD800) + (v - 0xDC00)) :: ·)
      else none
    else if isLowSurrogate u then none
    else (ofUnits? (v :: rest)).map (Char.ofNat u :: ·)

def text? (units : List Nat) : Option String := (ofUnits? units).map String.ofList

def token? (cs : List Char) : Option (Char × Rest cs) :=
  match h : skipSpace cs with
  | [] => none
  | c :: rest => some (c, ⟨rest, by
      have := length_skipSpace cs
      simp only [h, List.length_cons] at this; omega⟩)

def expect? (c : Char) (cs : List Char) : Option (Rest cs) :=
  (token? cs).bind fun (c', rest) => if c' = c then some rest else none

def number? (c : Char) (cs : List Char) : Option (Node × { r : List Char // r.length ≤ cs.length }) :=
  match h : numeral? (c :: cs) with
  | some (n, r) => some (n.number?.elim .unreadable .num, ⟨r, Nat.le_of_lt_succ (length_numeral? h)⟩)
  | none => none

/-- The word `w`, whose first character has been read. -/
def literal? (w : List Char) (v : Node) (cs : List Char) :
    Option (Node × { r : List Char // r.length ≤ cs.length }) :=
  if w <+: cs then some (v, ⟨cs.drop w.length, by simp⟩) else none

/-- A container at a place where `depth` levels are left. -/
def within (depth : Nat) (v : Node) : Node := if depth = 0 then .unreadable else v

mutual

def value? (depth : Nat) (cs : List Char) : Option (Node × Rest cs) := do
  let (c, ⟨rest, h⟩) ← token? cs
  if c = '[' then
    match expect? ']' rest with
    | some ⟨r, hr⟩ => return (within depth (.arr []), ⟨r, by omega⟩)
    | none =>
      let (xs, ⟨r, hr⟩) ← elements? (depth - 1) rest
      return (within depth (.arr xs), ⟨r, by omega⟩)
  else if c = '{' then
    match expect? '}' rest with
    | some ⟨r, hr⟩ => return (within depth (.obj []), ⟨r, by omega⟩)
    | none =>
      let (ms, ⟨r, hr⟩) ← members? (depth - 1) rest
      return (ms.elim .unreadable fun ms => within depth (.obj ms), ⟨r, by omega⟩)
  else if c = '"' then
    let (us, ⟨r, hr⟩) ← units? rest
    return ((text? us).elim .unreadable .str, ⟨r, by omega⟩)
  else
    let (v, ⟨r, hr⟩) ←
      if c = 'n' then literal? ['u', 'l', 'l'] .null rest
      else if c = 't' then literal? ['r', 'u', 'e'] (.bool true) rest
      else if c = 'f' then literal? ['a', 'l', 's', 'e'] (.bool false) rest
      else number? c rest
    return (v, ⟨r, by omega⟩)
termination_by 3 * cs.length

def elements? (depth : Nat) (cs : List Char) : Option (List Node × Rest cs) := do
  let (v, ⟨r1, h1⟩) ← value? depth cs
  let (c, ⟨r2, h2⟩) ← token? r1
  if c = ']' then return ([v], ⟨r2, by omega⟩)
  else if c = ',' then
    let (vs, ⟨r3, h3⟩) ← elements? depth r2
    return (v :: vs, ⟨r3, by omega⟩)
  else none
termination_by 3 * cs.length + 1

/-- One or more members, and the closing brace; `none` inside if a name has no text. -/
def members? (depth : Nat) (cs : List Char) :
    Option (Option (List (String × Node)) × Rest cs) := do
  let ⟨r1, h1⟩ ← expect? '"' cs
  let (us, ⟨r2, h2⟩) ← units? r1
  let ⟨r3, h3⟩ ← expect? ':' r2
  let (v, ⟨r4, h4⟩) ← value? depth r3
  let here := (text? us).map (·, v)
  let (c, ⟨r5, h5⟩) ← token? r4
  if c = '}' then return (here.map ([·]), ⟨r5, by omega⟩)
  else if c = ',' then
    let (ms, ⟨r6, h6⟩) ← members? depth r5
    return (here.bind fun m => ms.map (m :: ·), ⟨r6, by omega⟩)
  else none
termination_by 3 * cs.length + 2

end

/-- Reads a whole text: one value with nothing but blanks around it. -/
def read? (text : String) : Option Node := do
  let (v, ⟨rest, _⟩) ← value? nestingLimit text.toList
  if (skipSpace rest).isEmpty then some v else none

end AnnotatedApi.Json
