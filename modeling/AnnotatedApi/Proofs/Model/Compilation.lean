import AnnotatedApi.Model
import AnnotatedApi.Proofs.Annotation.Sorting
import AnnotatedApi.Proofs.OrderedMap
import AnnotatedApi.Proofs.TypeExpr.Resolution

/-! Which blocks describe models. Either a block has all that a model needs, or one of the faults is the
first in the order in which they are looked for; compilation is evaluated in both cases. Main statement:
the conditions under which a block compiles, what the model then says, and the error otherwise. -/
namespace AnnotatedApi

open Outcome

def lastDeclared? (ps : List TypedTag) (name : String) : Option TypedTag :=
  ps.reverse.find? (·.name = name)

namespace Model

structure Compilable (b : Block) : Prop where
  noErrors : ∀ t ∈ b.tags, t.errors = []
  typedef : ∃ d, b.typedefs = [d]
  typed : b.untypedProperties = []
  resolved : ∀ p ∈ b.properties, p.type.HasSchema

/-- The first fault of a block, with its error. -/
inductive Fault (b : Block) : Error → Prop
  | tagErrors {t : Tag} : b.errored? = some t → Fault b (.tagErrors t.title t.errors)
  | missingTypedef : b.errored? = none → b.typedefs = [] → Fault b (.missingTypedef b.summary)
  | duplicateTypedef : b.errored? = none → 2 ≤ b.typedefs.length →
      Fault b (.duplicateTypedef (b.typedefs.map (·.name)))
  | untypedProperty {d : TypedefTag} {name : String} {names : List String} :
      b.errored? = none → b.typedefs = [d] → b.untypedProperties = name :: names →
        Fault b (.untypedProperty d.name name)
  | unsupportedType {d : TypedefTag} {part : TypeExpr} :
      b.errored? = none → b.typedefs = [d] → b.untypedProperties = [] →
        FirstError (·.type.schema) b.properties (.unsupportedType part) →
          Fault b (.unsupportedType part)

/-- The schema of a property: that of its type, with its description. -/
def IsPropertySchema (p : TypedTag) (schema : Schema) : Prop :=
  ∃ s, p.type.schema = .ok s ∧ schema = { s with description := some p.description }

/-- What a model says of its block. A property that is declared again keeps its place. -/
structure Describes (b : Block) (m : Model) : Prop where
  typedef : ∃ d, b.typedefs = [d] ∧ m.name = d.name ∧
    m.schema.description = if d.description = "" then b.description else d.description
  type : m.schema.type = "object"
  keys : m.schema.properties.keys = (b.properties.map (·.name)).eraseDups
  values : ∀ name p, lastDeclared? b.properties name = some p →
    ∃ s, m.schema.properties.get? name = some s ∧ IsPropertySchema p s

theorem property_eq (p : TypedTag) : property p =
    p.type.schema.map fun s => (p.name, { s with description := some p.description }) := by
  unfold property
  cases p.type.schema <;> rfl

def assemble (b : Block) (d : TypedefTag) (properties : List (String × Schema)) : Model where
  name := d.name
  schema := {
    description := if d.description = "" then b.description else d.description
    required := (b.properties.filter (!·.type.isOptional)).map (·.name)
    properties := .ofList properties }

variable {b : Block} {d : TypedefTag}

theorem compile_of_errored {t : Tag} (h : b.errored? = some t) :
    compile b = .error (.tagErrors t.title t.errors) := by
  rw [compile, Roles.ofTags_eq, h]
  rfl

theorem compile_of_no_errors (h : b.errored? = none) : compile b =
    typedef b b.roles >>= fun d =>
      match b.untypedProperties with
      | name :: _ => .error (.untypedProperty d.name name)
      | [] => (b.properties.mapM property).map (assemble b d) := by
  rw [compile, Roles.ofTags_eq, h]
  rfl

theorem compile_of_typedef (h : b.errored? = none) (hd : b.typedefs = [d])
    (ht : b.untypedProperties = []) :
    compile b = (b.properties.mapM property).map (assemble b d) := by
  rw [compile_of_no_errors h, typedef, Block.roles, hd, ht]
  rfl

theorem Fault.compile_eq {e : Error} (h : Fault b e) : compile b = .error e := by
  cases h with
  | tagErrors h => exact compile_of_errored h
  | missingTypedef h hd =>
    rw [compile_of_no_errors h, typedef, Block.roles, hd]
    rfl
  | duplicateTypedef h hd =>
    obtain ⟨d, ds, hds⟩ := List.exists_cons_of_length_pos (Nat.lt_of_lt_of_le Nat.zero_lt_two hd)
    rw [hds] at hd
    obtain ⟨d', ds, rfl⟩ := List.exists_cons_of_length_pos (Nat.lt_of_succ_lt_succ hd)
    rw [compile_of_no_errors h, typedef, Block.roles, hds]
    rfl
  | untypedProperty h hd ht =>
    rw [compile_of_no_errors h, typedef, Block.roles, hd, ht]
    rfl
  | unsupportedType h hd ht hp =>
    rw [compile_of_typedef h hd ht, map_eq_error]
    exact TypeExpr.mapM_eq_error_of_firstError property_eq hp

theorem describes_assemble (hd : b.typedefs = [d]) {properties : List (String × Schema)}
    (h : b.properties.mapM property = .ok properties) : Describes b (assemble b d properties) := by
  have hprops : List.Forall₂ (fun p entry => entry.1 = p.name ∧ IsPropertySchema p entry.2)
      b.properties properties := by
    refine (forall₂_of_mapM_eq_ok h).imp ?_
    intro p entry hp
    rw [property_eq, map_eq_ok] at hp
    obtain ⟨s, hs, rfl⟩ := hp
    exact ⟨rfl, s, hs, rfl⟩
  exact ⟨⟨d, hd, rfl, rfl⟩, rfl, OrderedMap.keys_ofList_of_forall₂ hprops,
    fun name p => OrderedMap.get?_ofList_of_forall₂ hprops⟩

theorem Compilable.exists_assemble (h : Compilable b) :
    ∃ d properties, b.typedefs = [d] ∧ b.properties.mapM property = .ok properties ∧
      compile b = .ok (assemble b d properties) := by
  obtain ⟨d, hd⟩ := h.typedef
  obtain ⟨properties, hproperties⟩ := TypeExpr.exists_mapM_of_hasSchema property_eq h.resolved
  refine ⟨d, properties, hd, hproperties, ?_⟩
  rw [compile_of_typedef (Block.errored?_eq_none_iff.2 h.noErrors) hd h.typed, hproperties]
  rfl

theorem Compilable.exists_describes (h : Compilable b) : ∃ m, compile b = .ok m ∧ Describes b m := by
  obtain ⟨d, properties, hd, hproperties, hcompile⟩ := h.exists_assemble
  exact ⟨_, hcompile, describes_assemble hd hproperties⟩

theorem compilable_or_fault (b : Block) : Compilable b ∨ ∃ e, Fault b e := by
  cases he : b.errored? with
  | some t => exact .inr ⟨_, .tagErrors he⟩
  | none =>
    match hd : b.typedefs with
    | [] => exact .inr ⟨_, .missingTypedef he hd⟩
    | _ :: _ :: _ => exact .inr ⟨_, .duplicateTypedef he (by simp [hd])⟩
    | [d] =>
      cases ht : b.untypedProperties with
      | cons name names => exact .inr ⟨_, .untypedProperty he hd ht⟩
      | nil =>
        rcases TypeExpr.hasSchema_or_firstError TypedTag.type b.properties with hp | ⟨part, hp⟩
        · exact .inl ⟨Block.errored?_eq_none_iff.1 he, ⟨d, hd⟩, ht, hp⟩
        · exact .inr ⟨_, .unsupportedType he hd ht hp⟩

theorem exists_assemble_of_compile_eq_ok {m : Model} (h : compile b = .ok m) :
    ∃ d properties, b.typedefs = [d] ∧ b.properties.mapM property = .ok properties ∧
      m = assemble b d properties := by
  rcases compilable_or_fault b with hb | ⟨e, hb⟩
  · obtain ⟨d, properties, hd, hproperties, hcompile⟩ := hb.exists_assemble
    rw [h] at hcompile
    exact ⟨d, properties, hd, hproperties, Except.ok.inj hcompile⟩
  · rw [hb.compile_eq] at h
    cases h

/-- A block compiles under exactly these conditions, its model describes it, and otherwise the first
fault is reported. -/
theorem compile_model_spec (b : Block) :
    ((∃ m, compile b = .ok m) ↔ Compilable b) ∧
      (∀ m, compile b = .ok m → Describes b m) ∧
      ∀ e, compile b = .error e ↔ Fault b e :=
  settled_of_or Compilable.exists_describes (fun _ => Fault.compile_eq) (compilable_or_fault b)

/-- A property that is declared again, one without a name, and a tag that no model needs. -/
def petBlock : Block where
  description := "A pet."
  tags := [
    { title := "property", name := some "tag", type := some (.name "string"), description := "old" },
    { title := "typedef", name := some "Pet" }, { title := "typedef", name := some "" },
    { title := "property", name := some "owners", type := some (.arrayOf (.name "User")) },
    { title := "property", name := some "" }, { title := "author", description := "someone" },
    { title := "property", name := some "tag", type := some (.optional (.name "Tag")),
      description := "new" }]

def petClash : Block where
  tags := [{ title := "typedef", name := some "Pet" }, { title := "property", name := some "tag" },
    { title := "typedef", name := some "Dog" }]

theorem compile_model_spec_pet :
    (∃ m, compile petBlock = .ok m ∧ Compilable petBlock ∧ Describes petBlock m ∧
      m.schema.description = "A pet." ∧ m.schema.properties.keys = ["tag", "owners"]) ∧
    ∃ names, compile petClash = .error (.duplicateTypedef names) ∧ names = ["Pet", "Dog"] := by
  have h : (compile petBlock).toOption.map (fun m => (m.schema.description, m.schema.properties.keys)) =
      some ("A pet.", ["tag", "owners"]) := by
    decide +kernel
  obtain ⟨m, hm, heq⟩ := Option.map_eq_some_iff.1 h
  have hm : compile petBlock = .ok m := toOption_eq_some.1 hm
  obtain ⟨hdescription, hkeys⟩ := Prod.mk.inj heq
  obtain ⟨hcompiles, hdescribes, -⟩ := compile_model_spec petBlock
  have hclash : Fault petClash _ :=
    .duplicateTypedef (Block.errored?_eq_none_iff.2 (by simp [petClash])) (by decide +kernel)
  exact ⟨⟨m, hm, hcompiles.1 ⟨m, hm⟩, hdescribes m hm, hdescription, hkeys⟩,
    _, ((compile_model_spec petClash).2.2 _).2 hclash, by decide +kernel⟩

end Model

end AnnotatedApi
