import AnnotatedApi.Yaml.Lexer

/-! Reading YAML. -/
namespace AnnotatedApi.Yaml

namespace Token

/-- Nothing stands for an element before this token. -/
def endsItem : Token → Bool
  | entry => true
  | blockEnd => true
  | _ => false

def endsPart : Token → Bool
  | key => true
  | value => true
  | blockEnd => true
  | _ => false

def endsFlow : Token → Bool
  | comma => true
  | closeList => true
  | closeMap => true
  | _ => false

/-- Between brackets there is a comma before each element but the first. -/
def afterComma? : (first : Bool) → List Token → Option (List Token)
  | true, ts => some ts
  | false, comma :: ts => some ts
  | false, _ => none

mutual

/-- A value and what follows it, with at most `fuel` steps. Between brackets nothing opens by its column. A
list may stand at the column of the map around it, and then has no token before its first entry. -/
def node? : (fuel : Nat) → (inFlow inMap : Bool) → List Token → Option (Node × List Token)
  | 0, _, _, _ => none
  | fuel + 1, inFlow, inMap, ts =>
    match ts with
    | scalar x :: ts => some (x, ts)
    | openList :: ts => (flowItems? fuel true ts).map fun (xs, ts) => (.list xs, ts)
    | openMap :: ts => (flowEntries? fuel true ts).map fun (es, ts) => (.map es, ts)
    | blockList :: ts => if inFlow then none else (items? fuel ts).map fun (xs, ts) => (.list xs, ts)
    | blockMap :: ts => if inFlow then none else (entries? fuel ts).map fun (es, ts) => (.map es, ts)
    | entry :: _ => if inMap then (looseItems? fuel ts).map fun (xs, ts) => (.list xs, ts) else none
    | _ => none

def items? : (fuel : Nat) → List Token → Option (List Node × List Token)
  | 0, _ => none
  | fuel + 1, ts =>
    match ts with
    | blockEnd :: ts => some ([], ts)
    | entry :: ts => do
      let (x, ts) ← if ts.head?.any endsItem then some (.empty, ts) else node? fuel false false ts
      let (xs, ts) ← items? fuel ts
      return (x :: xs, ts)
    | _ => none

/-- The elements of a list at the column of the map around it. -/
def looseItems? : (fuel : Nat) → List Token → Option (List Node × List Token)
  | 0, _ => none
  | fuel + 1, ts =>
    match ts with
    | entry :: ts => do
      let (x, ts) ←
        if ts.head?.any fun t => t.endsItem || t.endsPart then some (.empty, ts)
        else node? fuel false false ts
      let (xs, ts) ← looseItems? fuel ts
      return (x :: xs, ts)
    | _ => some ([], ts)

def part? : (fuel : Nat) → List Token → Option (Node × List Token)
  | 0, _ => none
  | fuel + 1, ts => if ts.head?.any endsPart then some (.empty, ts) else node? fuel false true ts

def entries? : (fuel : Nat) → List Token → Option (List (Node × Node) × List Token)
  | 0, _ => none
  | fuel + 1, ts =>
    match ts with
    | blockEnd :: ts => some ([], ts)
    | key :: ts => do
      let (k, ts) ← part? fuel ts
      let (v, ts) ← match ts with
        | value :: ts => part? fuel ts
        | _ => some (.empty, ts)
      let (es, ts) ← entries? fuel ts
      return ((k, v) :: es, ts)
    | _ => none

def flowValue? : (fuel : Nat) → List Token → Option (Node × List Token)
  | 0, _ => none
  | fuel + 1, ts =>
    match ts with
    | value :: ts => if ts.head?.any endsFlow then some (.empty, ts) else node? fuel true false ts
    | _ => some (.empty, ts)

/-- The elements up to a closing bracket. An entry is a map of its own; where its key is empty, the token
behind the key is passed over. -/
def flowItems? : (fuel : Nat) → (first : Bool) → List Token → Option (List Node × List Token)
  | 0, _, _ => none
  | fuel + 1, first, ts =>
    match ts with
    | closeList :: ts => some ([], ts)
    | _ => (afterComma? first ts).bind fun ts =>
      match ts with
      | closeList :: ts => some ([], ts)
      | key :: ts => do
        let (k, ts) ← match ts with
          | value :: ts => some (.empty, ts)
          | comma :: ts => some (.empty, ts)
          | closeList :: ts => some (.empty, ts)
          | _ => node? fuel true false ts
        let (v, ts) ← flowValue? fuel ts
        let (xs, ts) ← flowItems? fuel false ts
        return (.map [(k, v)] :: xs, ts)
      | _ => do
        let (x, ts) ← node? fuel true false ts
        let (xs, ts) ← flowItems? fuel false ts
        return (x :: xs, ts)

def flowEntries? : (fuel : Nat) → (first : Bool) → List Token → Option (List (Node × Node) × List Token)
  | 0, _, _ => none
  | fuel + 1, first, ts =>
    match ts with
    | closeMap :: ts => some ([], ts)
    | _ => (afterComma? first ts).bind fun ts =>
      match ts with
      | closeMap :: ts => some ([], ts)
      | key :: ts => do
        let (k, ts) ←
          if ts.head?.any fun t => t.endsFlow || t.endsPart then some (.empty, ts)
          else node? fuel true false ts
        let (v, ts) ← flowValue? fuel ts
        let (es, ts) ← flowEntries? fuel false ts
        return ((k, v) :: es, ts)
      | _ => do
        let (k, ts) ← node? fuel true false ts
        let (es, ts) ← flowEntries? fuel false ts
        return ((k, .empty) :: es, ts)

end

def isFinish : Token → Bool
  | finish => true
  | _ => false

/-- The value of a document with no other one behind it. Each token takes at most two steps. -/
def document? (ts : List Token) : Option Node := do
  let fuel := 2 * ts.length + 2
  let (x, ts) ← match ts with
    | [] => some (.empty, [])
    | [start] => some (.empty, [])
    | start :: finish :: ts => some (.empty, ts)
    | start :: ts => node? fuel false false ts
    | ts => node? fuel false false ts
  if ts.all isFinish then some x else none

end Token

def isLegal (c : Char) : Bool :=
  c = '\t' || c = '\r' || c = '\u0085' || c = '\ufeff' || isPrintable c

def read? (text : String) : Option Node := do
  let cs := text.toList
  let cs := if cs.head? = some '\ufeff' then cs.tail else cs
  if !cs.all isLegal then none
  let x ← Token.document? (← Token.scan? cs)
  return x.within Node.depthLimit

end AnnotatedApi.Yaml
