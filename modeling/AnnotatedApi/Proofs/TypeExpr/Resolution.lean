import AnnotatedApi.Model
import AnnotatedApi.Proofs.Outcome
import AnnotatedApi.Proofs.TypeExpr.Printing

/-! Which types have a schema. Reading yields exactly the writable types, so the only parts of a type that
was read that can lack a schema are those that `Obstructs` lists: what is applied is always a name, and it
always has an argument. -/
namespace AnnotatedApi.TypeExpr

open Outcome

inductive Obstructs : (part t : TypeExpr) → Prop
  | nullable {t : TypeExpr} : Obstructs (nullable t) (nullable t)
  | nonNullable {t : TypeExpr} : Obstructs (nonNullable t) (nonNullable t)
  | any : Obstructs any any
  | alternative {before after : List TypeExpr} {part : TypeExpr} :
      (∀ t ∈ before, t.name?.isSome) → part.name? = none →
        Obstructs part (union (before ++ part :: after))
  | argument {n : String} {part : TypeExpr} {ts : List TypeExpr} :
      part.name? = none → Obstructs part (apply (name n) (part :: ts))

theorem leaf_eq_ok_iff {t : TypeExpr} {s : Schema} :
    leaf t = .ok s ↔ ∃ n, t.name? = some n ∧ s = schemaOfName n := by
  cases t <;> simp [leaf, name?, eq_comm]

theorem leaf_eq_error_iff {t : TypeExpr} {e : Error} :
    leaf t = .error e ↔ t.name? = none ∧ e = .unsupportedType t := by
  cases t <;> simp [leaf, name?, eq_comm]

theorem mapM_leaf_eq_error_iff {ts : List TypeExpr} {e : Error} :
    ts.mapM leaf = .error e ↔
      ∃ part, Obstructs part (union ts) ∧ e = .unsupportedType part := by
  constructor
  · intro h
    obtain ⟨before, part, after, rfl, hbefore, hpart⟩ := exists_of_mapM_eq_error h
    obtain ⟨hname, rfl⟩ := leaf_eq_error_iff.1 hpart
    refine ⟨part, .alternative ?_ hname, rfl⟩
    intro t ht
    obtain ⟨s, hs⟩ := hbefore t ht
    obtain ⟨n, hn, -⟩ := leaf_eq_ok_iff.1 hs
    simp [hn]
  · rintro ⟨part, hpart, rfl⟩
    generalize hu : union ts = u at hpart
    cases hpart with
    | @alternative before after part hbefore hname =>
      cases hu
      apply mapM_append_cons_eq_error
      · intro t ht
        obtain ⟨n, hn⟩ := Option.isSome_iff_exists.1 (hbefore t ht)
        exact ⟨_, leaf_eq_ok_iff.2 ⟨n, hn, rfl⟩⟩
      · exact leaf_eq_error_iff.2 ⟨hname, rfl⟩
    | _ => cases hu

def HasSchema (t : TypeExpr) : Prop := ∃ s, t.schema = .ok s

/-- The only error is that a part of the type has no schema. -/
theorem exists_of_schema_eq_error {t : TypeExpr} {e : Error} (h : schema t = .error e) :
    ∃ part, e = .unsupportedType part := by
  unfold schema at h
  split at h
  next => cases h
  next => cases h
  next ts =>
    rcases bind_eq_error.1 h with h | ⟨_, -, ⟨⟩⟩
    obtain ⟨part, -, rfl⟩ := mapM_leaf_eq_error_iff.1 h
    exact ⟨part, rfl⟩
  next t _ =>
    rcases bind_eq_error.1 h with h | ⟨_, -, ⟨⟩⟩
    obtain ⟨-, rfl⟩ := leaf_eq_error_iff.1 h
    exact ⟨t, rfl⟩
  next =>
    cases h
    exact ⟨_, rfl⟩

theorem hasSchema_or_error (t : TypeExpr) :
    t.HasSchema ∨ ∃ part, t.schema = .error (.unsupportedType part) := by
  cases h : t.schema with
  | ok s => exact .inl ⟨s, h⟩
  | error e =>
    obtain ⟨part, rfl⟩ := exists_of_schema_eq_error h
    exact .inr ⟨part, rfl⟩

/-- All types of a list have schemas, or there is a first one that has none. -/
theorem hasSchema_or_firstError {α : Type} (type : α → TypeExpr) (xs : List α) :
    (∀ x ∈ xs, (type x).HasSchema) ∨
      ∃ part, FirstError (fun x => (type x).schema) xs (.unsupportedType part) := by
  cases h : xs.mapM fun x => (type x).schema with
  | ok schemas =>
    refine .inl fun x hx => ?_
    obtain ⟨s, -, hs⟩ := exists_result_of_mapM_eq_ok h hx
    exact ⟨s, hs⟩
  | error e =>
    obtain ⟨before, x, after, hxs, hbefore, hx⟩ := mapM_eq_error_iff.1 h
    obtain ⟨part, rfl⟩ := exists_of_schema_eq_error hx
    exact .inr ⟨part, before, x, after, hxs, hbefore, hx⟩

section Steps

variable {α β : Type} {type : α → TypeExpr} {f : α → Except Error β} {g : α → Schema → β} {xs : List α}

theorem exists_mapM_of_hasSchema (hf : ∀ x, f x = (type x).schema.map (g x))
    (h : ∀ x ∈ xs, (type x).HasSchema) : ∃ ys, xs.mapM f = .ok ys := by
  apply exists_mapM_eq_ok
  intro x hx
  obtain ⟨s, hs⟩ := h x hx
  exact ⟨g x s, by rw [hf, hs]; rfl⟩

theorem mapM_eq_error_of_firstError (hf : ∀ x, f x = (type x).schema.map (g x)) {e : Error}
    (h : FirstError (fun x => (type x).schema) xs e) : xs.mapM f = .error e := by
  rw [funext hf, mapM_eq_error_iff, firstError_map_iff]
  exact h

end Steps

/-- A writable type has no schema exactly if a part of it has none, and the error names that part. -/
theorem Writable.schema_eq_error_iff {t : TypeExpr} (h : Writable t) {e : Error} :
    schema t = .error e ↔ ∃ part, Obstructs part t ∧ e = .unsupportedType part := by
  have hmap {α β : Type} {x : Except Error α} {f : α → β} :
      (do return f (← x)) = Except.error (ε := Error) e ↔ x = .error e := by
    cases x <;> simp [bind, Except.bind, pure, Except.pure]
  cases h with
  | name _ =>
    refine ⟨nofun, ?_⟩
    rintro ⟨part, ⟨⟩, -⟩
  | optional _ =>
    refine ⟨nofun, ?_⟩
    rintro ⟨part, ⟨⟩, -⟩
  | union _ _ =>
    rw [schema, hmap, mapM_leaf_eq_error_iff]
  | @apply n ts _ hne _ =>
    obtain ⟨t, ts, rfl⟩ := List.exists_cons_of_ne_nil hne
    rw [schema, hmap, leaf_eq_error_iff]
    constructor
    · rintro ⟨hname, rfl⟩
      exact ⟨t, .argument hname, rfl⟩
    · rintro ⟨part, ⟨⟩, rfl⟩
      exact ⟨by assumption, rfl⟩
  | nullable _ | nonNullable _ | any =>
    constructor
    · rintro ⟨⟩
      exact ⟨_, by constructor, rfl⟩
    · rintro ⟨part, ⟨⟩, rfl⟩
      rfl

/-- Reading yields writable types only, each of them is read back from what is written, and the schema of
a type that was read fails at a part that `Obstructs` it, and at nothing else. -/
theorem parse_yields_writable (source : String) (t : TypeExpr) :
    (parse source = .ok t → Writable t) ∧
      (Writable t → parse (String.ofList (print t)) = .ok t) ∧
      (parse source = .ok t → ∀ e, schema t = .error e ↔
        ∃ part, Obstructs part t ∧ e = .unsupportedType part) := by
  refine ⟨writable_of_parseChars, ?_, ?_⟩
  · intro h
    rw [parse, String.toList_ofList, h.parseChars_print]
  · intro h e
    exact (writable_of_parseChars h).schema_eq_error_iff

/-- `Map<ns.Key, ?((*)=)>|Array<!(Pet)>`, whose alternatives are no plain names. -/
def nestedUnion : TypeExpr :=
  union [apply (name "Map") [name "ns.Key", nullable (optional any)], arrayOf (nonNullable (name "Pet"))]

theorem parse_yields_writable_nestedUnion :
    Writable nestedUnion ∧ parse (String.ofList (print nestedUnion)) = .ok nestedUnion ∧
      schema nestedUnion = .error (.unsupportedType
        (apply (name "Map") [name "ns.Key", nullable (optional any)])) := by
  have hkey : IsName "ns.Key".toList :=
    ⟨'n', ['s', '.', 'K', 'e', 'y'], rfl, by decide +kernel, .part (by decide +kernel)
      (.point (by decide +kernel) (nameTail_of_all (by decide +kernel)))⟩
  have hmap : Writable (apply (name "Map") [name "ns.Key", nullable (optional any)]) := by
    refine .apply (isName_of_all (by decide +kernel) (by decide +kernel)) (by simp) ?_
    simpa using ⟨Writable.name hkey, Writable.nullable (.optional .any)⟩
  have hpet : Writable (arrayOf (nonNullable (name "Pet"))) :=
    .arrayOf (.nonNullable (.name (isName_of_all (by decide +kernel) (by decide +kernel))))
  have hw : Writable nestedUnion := .union (by simp) (by simpa using ⟨hmap, hpet⟩)
  obtain ⟨-, hprint, hschema⟩ := parse_yields_writable (String.ofList (print nestedUnion)) nestedUnion
  refine ⟨hw, hprint hw, (hschema (hprint hw) _).2 ⟨_, ?_, rfl⟩⟩
  exact @Obstructs.alternative [] _ _ (by simp) rfl

end AnnotatedApi.TypeExpr
