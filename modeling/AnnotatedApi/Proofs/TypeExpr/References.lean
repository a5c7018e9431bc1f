import AnnotatedApi.Proofs.Document.Reference
import AnnotatedApi.Proofs.TypeExpr.Resolution

/-! What the schema of a type refers to. A name is written behind the root of the components and taken
off it again when references are collected, once, so a name that starts with the root itself is not
shortened. Main statement: which types have a schema, that it refers to the names it is made from except
the primitive ones, and which part of any other type is reported. -/
namespace AnnotatedApi.TypeExpr

open Outcome

/-- The names that the schema of a type is made from, in order. Of an optional type the name becomes a type
of its own and refers to nothing; of several arguments only the first one counts. -/
inductive MadeFrom : TypeExpr → List String → Prop
  | name {n : String} : MadeFrom (name n) [n]
  | optional {t : TypeExpr} : MadeFrom (optional t) []
  | union {names : List String} : MadeFrom (union (names.map .name)) names
  | apply {container n : String} {ts : List TypeExpr} :
      MadeFrom (apply (.name container) (.name n :: ts)) [n]

/-- The part that is reported when a type has no schema: of a union the first alternative that is no name,
of a named container the first argument, of anything else the whole type. -/
def blamed : TypeExpr → TypeExpr
  | union ts => (ts.find? (·.name?.isNone)).getD (union ts)
  | apply (name _) (t :: _) => t
  | t => t

theorem references_schemaOfName (n : String) :
    (schemaOfName n).references = [n].filter (· ∉ primitives) := by
  unfold schemaOfName
  split
  next h => simp [Schema.ofType, Schema.references, Schema.referencesOneOf, Schema.referencesItems, h]
  next h =>
    have htarget : Schema.target (Schema.componentRoot ++ n) = n := Schema.leadsTo_iff.1 (.inl rfl)
    simp [Schema.ofReference, Schema.references, Schema.referencesOneOf, Schema.referencesItems, h,
      htarget]

theorem referencesList_schemaOfName (names : List String) :
    Schema.referencesList (names.map schemaOfName) = names.filter (· ∉ primitives) := by
  induction names with
  | nil => rfl
  | cons n names ih =>
    rw [List.map_cons, Schema.referencesList, references_schemaOfName, ih, ← List.filter_append,
      List.singleton_append]

private theorem mapM_leaf_names (names : List String) :
    (names.map name).mapM leaf = .ok (names.map schemaOfName) := by
  apply mapM_eq_ok_of_forall₂
  rw [List.forall₂_map_left_iff, List.forall₂_map_right_iff]
  exact List.forall₂_same.2 fun n _ => rfl

theorem MadeFrom.exists_schema {t : TypeExpr} {names : List String} (h : MadeFrom t names) :
    ∃ s, t.schema = .ok s ∧ s.references = names.filter (· ∉ primitives) := by
  cases h with
  | @name n => exact ⟨schemaOfName n, rfl, references_schemaOfName n⟩
  | @optional t => exact ⟨{ type := t.name? }, rfl, rfl⟩
  | union =>
    refine ⟨{ oneOf := some (names.map schemaOfName) }, ?_, ?_⟩
    · rw [schema, mapM_leaf_names]
      rfl
    · rw [← referencesList_schemaOfName]
      simp [Schema.references, Schema.referencesOneOf, Schema.referencesItems]
  | @apply container n ts =>
    refine ⟨{ type := some (Text.lowercase container), items := some (schemaOfName n) }, rfl, ?_⟩
    rw [← references_schemaOfName]
    simp [Schema.references, Schema.referencesOneOf, Schema.referencesItems]

private theorem exists_map_name {ts : List TypeExpr} (h : ∀ t ∈ ts, t.name?.isSome) :
    ∃ names : List String, ts = names.map name := by
  induction ts with
  | nil => exact ⟨[], rfl⟩
  | cons t ts ih =>
    obtain ⟨ht, hts⟩ := List.forall_mem_cons.1 h
    obtain ⟨names, rfl⟩ := ih hts
    cases t with
    | name n => exact ⟨n :: names, rfl⟩
    | _ => cases ht

/-- A union has only names, or a first alternative that is none. -/
theorem madeFrom_or_obstructs (ts : List TypeExpr) :
    (∃ names, MadeFrom (union ts) names) ∨ Obstructs (union ts).blamed (union ts) := by
  cases h : ts.find? (·.name?.isNone) with
  | none =>
    have hnames : ∀ t ∈ ts, t.name?.isSome := by simpa [Option.isSome_iff_ne_none] using h
    obtain ⟨names, rfl⟩ := exists_map_name hnames
    exact .inl ⟨names, .union⟩
  | some part =>
    obtain ⟨hpart, before, after, rfl, hbefore⟩ := List.find?_eq_some_iff_append.1 h
    rw [blamed, h, Option.getD_some]
    exact .inr (.alternative (by simpa [Option.isSome_iff_ne_none] using hbefore) (by simpa using hpart))

theorem schema_eq_error_of_not_madeFrom {t : TypeExpr} (h : ¬∃ names, MadeFrom t names) :
    t.schema = .error (.unsupportedType t.blamed) := by
  cases t with
  | name n => exact absurd ⟨[n], .name⟩ h
  | optional t => exact absurd ⟨[], .optional⟩ h
  | union ts =>
    have hpart := (madeFrom_or_obstructs ts).resolve_left h
    rw [schema, mapM_leaf_eq_error_iff.2 ⟨_, hpart, rfl⟩]
    rfl
  | apply c ts =>
    cases c with
    | name container =>
      cases ts with
      | nil => rfl
      | cons t ts =>
        cases t with
        | name n => exact absurd ⟨[n], .apply⟩ h
        | _ => rfl
    | _ => rfl
  | _ => rfl

/-- A type has a schema exactly if it is made from names. The schema refers to those of them that are not
primitive, in their order and as often as they stand there. Any other type is refused, and the error
carries the part that is to blame. -/
theorem schema_refers_to (t : TypeExpr) :
    ((∃ s, t.schema = .ok s) ↔ ∃ names, MadeFrom t names) ∧
      (∀ s names, t.schema = .ok s → MadeFrom t names →
        s.references = names.filter (· ∉ primitives)) ∧
      ∀ e, t.schema = .error e ↔
        (¬∃ names, MadeFrom t names) ∧ e = .unsupportedType t.blamed := by
  have hok : (∃ names, MadeFrom t names) → ∃ s, t.schema = .ok s ∧ ∀ names, MadeFrom t names →
      s.references = names.filter (· ∉ primitives) := by
    rintro ⟨names, h⟩
    obtain ⟨s, hs, -⟩ := h.exists_schema
    refine ⟨s, hs, fun names' h' => ?_⟩
    obtain ⟨s', hs', hreferences⟩ := h'.exists_schema
    cases hs.symm.trans hs'
    exact hreferences
  have herror : ∀ e, ((¬∃ names, MadeFrom t names) ∧ e = .unsupportedType t.blamed) →
      t.schema = .error e := by
    rintro e ⟨h, rfl⟩
    exact schema_eq_error_of_not_madeFrom h
  obtain ⟨hiff, hrefers, hrefused⟩ := settled_of_or hok herror
    ((em (∃ names, MadeFrom t names)).imp_right fun h => ⟨_, h, rfl⟩)
  exact ⟨hiff, fun s names hs => hrefers s hs names, hrefused⟩

/-- A repeated name, a primitive one, and one that looks like a reference. -/
theorem schema_refers_to_lookalikes :
    (∃ s, (union (["Pet", "string", "#/components/schemas/Pet", "Pet"].map name)).schema = .ok s ∧
      s.references = ["Pet", "#/components/schemas/Pet", "Pet"]) ∧
    (union [name "Pet", nullable (name "Pet"), any]).schema =
      .error (.unsupportedType (nullable (name "Pet"))) ∧
    (apply any [name "Pet"]).schema = .error (.unsupportedType (apply any [name "Pet"])) := by
  have hnames : MadeFrom (union (["Pet", "string", "#/components/schemas/Pet", "Pet"].map name)) _ :=
    .union
  obtain ⟨hiff, hrefers, -⟩ := schema_refers_to
    (union (["Pet", "string", "#/components/schemas/Pet", "Pet"].map name))
  obtain ⟨s, hs⟩ := hiff.2 ⟨_, hnames⟩
  refine ⟨⟨s, hs, (hrefers s _ hs hnames).trans (by decide)⟩, ?_, ?_⟩
  · refine ((schema_refers_to _).2.2 _).2 ⟨?_, rfl⟩
    rintro ⟨names, h⟩
    generalize hu : union [name "Pet", nullable (name "Pet"), any] = u at h
    cases h with
    | @union names =>
      have hmem : nullable (name "Pet") ∈ names.map name := by
        rw [← TypeExpr.union.inj hu]
        simp
      simp at hmem
    | _ => cases hu
  · refine ((schema_refers_to _).2.2 _).2 ⟨?_, rfl⟩
    rintro ⟨names, ⟨⟩⟩

end AnnotatedApi.TypeExpr
