import AnnotatedApi.Proofs.Model.Compilation

/-! The required properties of a model. Each declaration adds to them on its own, while a property keeps
only its last declaration, so the two can come apart. Main statement: they agree exactly where every
declaration that is replaced later is optional. -/
namespace AnnotatedApi.Model

open Outcome

def requiredNames (ps : List TypedTag) : List String :=
  (ps.filter (!·.type.isOptional)).map (·.name)

/-- The name is declared, and its last declaration is not optional. -/
def RequiredAtLast (ps : List TypedTag) (name : String) : Prop :=
  ∃ p, lastDeclared? ps name = some p ∧ p.type.isOptional = false

variable {p : TypedTag} {ps : List TypedTag} {name : String}

theorem mem_requiredNames_iff :
    name ∈ requiredNames ps ↔ ∃ p ∈ ps, p.type.isOptional = false ∧ p.name = name := by
  simp [requiredNames, and_assoc]

private theorem requiredNames_cons_optional (h : p.type.isOptional = true) :
    requiredNames (p :: ps) = requiredNames ps := by
  simp [requiredNames, h]

theorem requiredNames_cons_required (h : p.type.isOptional = false) :
    requiredNames (p :: ps) = p.name :: requiredNames ps := by
  simp [requiredNames, h]

theorem lastDeclared?_cons : lastDeclared? (p :: ps) name =
    (lastDeclared? ps name).or (if p.name = name then some p else none) := by
  unfold lastDeclared?
  rw [List.reverse_cons, List.find?_append]
  by_cases h : p.name = name <;> simp [h]

theorem lastDeclared?_eq_none_iff : lastDeclared? ps name = none ↔ ∀ q ∈ ps, q.name ≠ name := by
  simp [lastDeclared?]

theorem RequiredAtLast.mem (h : RequiredAtLast ps name) : name ∈ requiredNames ps := by
  obtain ⟨p, hp, hrequired⟩ := h
  have hmem := List.mem_of_find?_eq_some hp
  have hname := List.find?_some hp
  exact mem_requiredNames_iff.2 ⟨p, by simpa using hmem, hrequired, by simpa using hname⟩

theorem RequiredAtLast.cons (h : RequiredAtLast ps name) : RequiredAtLast (p :: ps) name := by
  obtain ⟨q, hq, hrequired⟩ := h
  exact ⟨q, by rw [lastDeclared?_cons, hq, Option.some_or], hrequired⟩

/-- A declaration has no say where the name is declared again. -/
theorem RequiredAtLast.of_cons {q : TypedTag} (h : RequiredAtLast (p :: ps) name) (hq : q ∈ ps)
    (hname : q.name = name) : RequiredAtLast ps name := by
  obtain ⟨r, hr, hrequired⟩ := h
  cases hlast : lastDeclared? ps name with
  | none => exact absurd hname (lastDeclared?_eq_none_iff.1 hlast q hq)
  | some r' =>
    rw [lastDeclared?_cons, hlast, Option.some_or] at hr
    cases hr
    exact ⟨r, hlast, hrequired⟩

/-- The required names are those that are required at last, each of them once. -/
structure Agree (ps : List TypedTag) : Prop where
  nodup : (requiredNames ps).Nodup
  atLast : ∀ name ∈ requiredNames ps, RequiredAtLast ps name

theorem Agree.of_cons (h : Agree (p :: ps)) : Agree ps where
  nodup := h.nodup.sublist (((List.sublist_cons_self p ps).filter _).map _)
  atLast name hname := by
    obtain ⟨q, hq, hrequired, hqname⟩ := mem_requiredNames_iff.1 hname
    have hmem : name ∈ requiredNames (p :: ps) :=
      mem_requiredNames_iff.2 ⟨q, List.mem_cons_of_mem p hq, hrequired, hqname⟩
    exact (h.atLast name hmem).of_cons hq hqname

theorem Agree.isOptional_of_replaced (h : Agree (p :: ps)) {q : TypedTag} (hq : q ∈ ps)
    (hname : p.name = q.name) : p.type.isOptional = true := by
  by_contra hoptional
  have hrequired : p.type.isOptional = false := by simpa using hoptional
  obtain ⟨hnodup, hatLast⟩ := h
  rw [requiredNames_cons_required hrequired] at hnodup hatLast
  have hagain := (hatLast p.name List.mem_cons_self).of_cons hq hname.symm
  exact (List.nodup_cons.1 hnodup).1 hagain.mem

theorem Agree.cons (h : Agree ps) (hp : ∀ q ∈ ps, p.name = q.name → p.type.isOptional = true) :
    Agree (p :: ps) := by
  cases hoptional : p.type.isOptional with
  | true =>
    have hcons := @requiredNames_cons_optional p ps hoptional
    exact ⟨hcons ▸ h.nodup, fun name hname => (h.atLast name (hcons ▸ hname)).cons⟩
  | false =>
    have hcons := @requiredNames_cons_required p ps hoptional
    have hfresh : ∀ q ∈ ps, q.name ≠ p.name := by
      intro q hq hname
      simp [hp q hq hname.symm] at hoptional
    refine ⟨?_, ?_⟩
    · rw [hcons, List.nodup_cons]
      refine ⟨fun hmem => ?_, h.nodup⟩
      obtain ⟨q, hq, -, hname⟩ := mem_requiredNames_iff.1 hmem
      exact hfresh q hq hname
    · rw [hcons]
      intro name hname
      rcases List.mem_cons.1 hname with rfl | hname
      · refine ⟨p, ?_, hoptional⟩
        rw [lastDeclared?_cons, lastDeclared?_eq_none_iff.2 hfresh, if_pos rfl, Option.none_or]
      · exact (h.atLast name hname).cons

theorem agree_iff_pairwise :
    Agree ps ↔ ps.Pairwise fun p q => p.name = q.name → p.type.isOptional = true := by
  induction ps with
  | nil => exact ⟨fun _ => .nil, fun _ => ⟨.nil, nofun⟩⟩
  | cons p ps ih =>
    rw [List.pairwise_cons, ← ih]
    exact ⟨fun h => ⟨fun q => h.isOptional_of_replaced, h.of_cons⟩, fun h => h.2.cons h.1⟩

variable {b : Block} {m : Model}

theorem required_eq (h : compile b = .ok m) : m.schema.required = requiredNames b.properties := by
  obtain ⟨d, properties, -, -, rfl⟩ := exists_assemble_of_compile_eq_ok h
  rfl

theorem RequiredAtLast.mem_keys (h : Describes b m) (hname : RequiredAtLast b.properties name) :
    name ∈ m.schema.properties.keys := by
  obtain ⟨p, hp, -, rfl⟩ := mem_requiredNames_iff.1 hname.mem
  rw [h.keys, List.mem_eraseDups]
  exact List.mem_map_of_mem hp

/-- No property that is required at last is missing. The required properties are exactly those, each of
them once, if and only if every declaration that is replaced later is optional. -/
theorem required_agrees_iff (h : compile b = .ok m) :
    (∀ name, RequiredAtLast b.properties name → name ∈ m.schema.required) ∧
      ((m.schema.required.Nodup ∧ ∀ name, name ∈ m.schema.required ↔
          name ∈ m.schema.properties.keys ∧ RequiredAtLast b.properties name) ↔
        b.properties.Pairwise fun p q => p.name = q.name → p.type.isOptional = true) := by
  obtain ⟨d, properties, hd, hproperties, rfl⟩ := exists_assemble_of_compile_eq_ok h
  rw [required_eq h, ← agree_iff_pairwise]
  refine ⟨fun name => RequiredAtLast.mem, ?_, ?_⟩
  · rintro ⟨hnodup, hiff⟩
    exact ⟨hnodup, fun name hname => ((hiff name).1 hname).2⟩
  · rintro ⟨hnodup, hatLast⟩
    refine ⟨hnodup, fun name => ⟨fun hname => ?_, fun hname => hname.2.mem⟩⟩
    exact ⟨(hatLast name hname).mem_keys (describes_assemble hd hproperties), hatLast name hname⟩

def declaration (name : String) (type : TypeExpr) : Tag :=
  { title := "property", name := some name, type := some type }

def refined : Block where
  tags := [{ title := "typedef", name := some "Pet" },
    declaration "age" (.optional (.name "integer")), declaration "name" (.name "string"),
    declaration "age" (.name "integer"), declaration "tag" (.optional .any),
    declaration "tag" (.optional (.name "Tag"))]

theorem required_agrees_refined : ∃ m, compile refined = .ok m ∧ m.schema.required = ["name", "age"] ∧
    m.schema.required.Nodup ∧ ∀ name, name ∈ m.schema.required ↔
      name ∈ m.schema.properties.keys ∧ RequiredAtLast refined.properties name := by
  have h : (compile refined).toOption.map (·.schema.required) = some ["name", "age"] := by
    decide +kernel
  obtain ⟨m, hm, hrequired⟩ := Option.map_eq_some_iff.1 h
  have hm : compile refined = .ok m := toOption_eq_some.1 hm
  exact ⟨m, hm, hrequired, (required_agrees_iff hm).2.2 (by decide +kernel)⟩

/-- Declarations that are repeated, and one that is made optional afterwards. -/
def redeclared : Block where
  tags := [{ title := "typedef", name := some "T" }, declaration "a" (.name "string"),
    declaration "a" (.name "string"), declaration "b" (.name "string"),
    declaration "b" (.optional (.name "string"))]

theorem required_disagrees_redeclared : ∃ m, compile redeclared = .ok m ∧
    m.schema.required = ["a", "a", "b"] ∧ ¬m.schema.required.Nodup ∧
      m.schema.properties.keys = ["a", "b"] ∧ ¬RequiredAtLast redeclared.properties "b" := by
  have h : (compile redeclared).toOption.map (fun m => (m.schema.required, m.schema.properties.keys)) =
      some (["a", "a", "b"], ["a", "b"]) := by
    decide +kernel
  obtain ⟨m, hm, heq⟩ := Option.map_eq_some_iff.1 h
  obtain ⟨hrequired, hkeys⟩ := Prod.mk.inj heq
  refine ⟨m, toOption_eq_some.1 hm, hrequired, by rw [hrequired]; decide, hkeys, ?_⟩
  rintro ⟨p, hp, hrequired⟩
  have hlast : (lastDeclared? redeclared.properties "b").map (·.type.isOptional) = some true := by
    decide +kernel
  rw [hp, Option.map_some, hrequired] at hlast
  cases hlast

end AnnotatedApi.Model
