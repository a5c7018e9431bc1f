import AnnotatedApi.Json.Reader
import AnnotatedApi.Source
import AnnotatedApi.TypeExpr.Basic

/-! Decoding type expressions from their object form. -/
namespace AnnotatedApi.TypeExpr

variable {σ : Type} [Source σ]

def kind? : Record σ → Option (String × Record σ)
  | .named fields => ((Record.named fields).required 0 "type" Source.text?).map (·, .named fields)
  | .positional (kind :: parts) => (Source.text? kind).map (·, .positional parts)
  | .positional [] => none

def ofParts? (part : σ → Option TypeExpr) (kind : String) (r : Record σ) : Option TypeExpr :=
  match kind with
  | "NameExpression" => do
    r.atMost 1
    return name (← r.required 0 "name" Source.text?)
  | "OptionalType" => do
    r.atMost 1
    return optional (← r.required 0 "expression" part)
  | "UnionType" => do
    r.atMost 1
    return union (← r.required 0 "elements" (Source.list? part))
  | "TypeApplication" => do
    r.atMost 2
    return apply (← r.required 0 "expression" part) (← r.required 1 "applications" (Source.list? part))
  | "NullableType" => do
    r.atMost 1
    return nullable (← r.required 0 "expression" part)
  | "NonNullableType" => do
    r.atMost 1
    return nonNullable (← r.required 0 "expression" part)
  | "AllLiteral" => do
    r.atMost 0
    return any
  | _ => none

def decodeWithin : (depth : Nat) → σ → Option TypeExpr
  | 0, _ => none
  | depth + 1, v => do
    let (kind, r) ← kind? (← Source.record? v)
    ofParts? (decodeWithin depth) kind r

/-- Decodes a type. No text nests deeper than its reader admits. -/
def decode (v : σ) : Option TypeExpr := decodeWithin Json.nestingLimit v

end AnnotatedApi.TypeExpr
