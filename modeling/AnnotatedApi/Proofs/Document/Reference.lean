import AnnotatedApi.Document.Violation
import AnnotatedApi.Proofs.OrderedMap
import Mathlib.Data.List.Basic

/-! Where schemas and references stand in a document. Main statement: the references that are listed
for checking are the names of those that stand somewhere in the document, at any depth. -/
namespace AnnotatedApi

namespace Schema

/-- A reference stands in a schema, at any depth. -/
inductive Mentions : Schema → String → Prop
  | here {s : Schema} {r : String} : s.reference = some r → Mentions s r
  | oneOf {s t : Schema} {ts : List Schema} {r : String} :
      s.oneOf = some ts → t ∈ ts → Mentions t r → Mentions s r
  | items {s t : Schema} {r : String} : s.items = some t → Mentions t r → Mentions s r

/-- A reference leads to a component by its place, or by its bare name. -/
def LeadsTo (reference name : String) : Prop :=
  reference = componentRoot ++ name ∨
    (¬∃ rest, reference = componentRoot ++ rest) ∧ reference = name

theorem leadsTo_iff {reference name : String} : LeadsTo reference name ↔ target reference = name := by
  have hrest : ∀ rest : String, reference = componentRoot ++ rest ↔
      componentRoot.toList.isPrefixOf? reference.toList = some rest.toList := by
    intro rest
    rw [List.isPrefixOf?_eq_some_iff_append_eq, ← String.toList_append, String.toList_inj, eq_comm]
  unfold LeadsTo target
  simp only [hrest]
  cases h : componentRoot.toList.isPrefixOf? reference.toList with
  | none => simp
  | some cs =>
    have hex : ∃ rest : String, cs = rest.toList := ⟨String.ofList cs, by simp⟩
    simp only [hex, not_true_eq_false, false_and, or_false, Option.map_some, Option.getD_some,
      Option.some.injEq]
    constructor
    · rintro rfl
      exact String.ofList_toList
    · rintro rfl
      exact String.toList_ofList.symm

private theorem mem_referencesList_iff {n : String} {ts : List Schema} :
    n ∈ referencesList ts ↔ ∃ t ∈ ts, n ∈ t.references := by
  induction ts with
  | nil => simp [referencesList]
  | cons t ts ih => simp [referencesList, ih]

theorem mem_references_of_mentions {s : Schema} {r : String} (h : s.Mentions r) :
    target r ∈ s.references := by
  induction h with
  | @here s r hr =>
    obtain ⟨_, _, reference, _, _⟩ := s
    cases hr
    simp [references]
  | @oneOf s t ts r hs ht _ ih =>
    obtain ⟨_, _, _, oneOf, _⟩ := s
    cases hs
    have hmem := mem_referencesList_iff.2 ⟨t, ht, ih⟩
    simp [references, referencesOneOf, hmem]
  | @items s t r hs _ ih =>
    obtain ⟨_, _, _, _, items⟩ := s
    cases hs
    simp [references, referencesItems, ih]

mutual

theorem exists_mentions {n : String} : (s : Schema) → n ∈ s.references →
    ∃ r, s.Mentions r ∧ target r = n
  | ⟨_, _, reference, oneOf, items⟩, h => by
    rw [references, List.mem_append, List.mem_append] at h
    rcases h with (h | h) | h
    · obtain ⟨r, hr, hn⟩ : ∃ r, reference = some r ∧ target r = n := by simpa using h
      exact ⟨r, .here hr, hn⟩
    · cases oneOf with
      | none => exact absurd h List.not_mem_nil
      | some ts =>
        obtain ⟨t, ht, r, hr, hn⟩ := exists_mentions_list ts h
        exact ⟨r, .oneOf rfl ht hr, hn⟩
    · cases items with
      | none => exact absurd h List.not_mem_nil
      | some t =>
        obtain ⟨r, hr, hn⟩ := exists_mentions t h
        exact ⟨r, .items rfl hr, hn⟩

theorem exists_mentions_list {n : String} : (ts : List Schema) → n ∈ referencesList ts →
    ∃ t ∈ ts, ∃ r, t.Mentions r ∧ target r = n
  | [], h => absurd h List.not_mem_nil
  | t :: ts, h => by
    rw [referencesList, List.mem_append] at h
    rcases h with h | h
    · exact ⟨t, List.mem_cons_self, exists_mentions t h⟩
    · obtain ⟨t', ht, hr⟩ := exists_mentions_list ts h
      exact ⟨t', List.mem_cons_of_mem _ ht, hr⟩

end

theorem mem_references_iff {s : Schema} {n : String} :
    n ∈ s.references ↔ ∃ r, s.Mentions r ∧ LeadsTo r n := by
  simp only [leadsTo_iff]
  constructor
  · exact exists_mentions s
  · rintro ⟨r, hr, rfl⟩
    exact mem_references_of_mentions hr

end Schema

theorem PathItem.mem_operations_iff {item : PathItem} {m : Method} {o : Operation} :
    (m, o) ∈ item.operations ↔ item.operation? m = some o := by
  have hm : m ∈ Method.all := by cases m <;> decide
  simp only [operations, List.mem_filterMap, Option.map_eq_some_iff]
  constructor
  · rintro ⟨m', -, o', ho, he⟩
    cases he
    exact ho
  · intro ho
    exact ⟨m, hm, o, ho, rfl⟩

namespace Document

def Serves (d : Document) (path : String) (m : Method) (o : Operation) : Prop :=
  ∃ item, d.paths.get? path = some item ∧ item.operation? m = some o

/-- A schema describes something at a place: a parameter, a type of media in a body or a response, or
a property. -/
inductive Describes (d : Document) : Place → Schema → Prop
  | parameter {path : String} {m : Method} {o : Operation} {p : Parameter} :
      d.Serves path m o → p ∈ o.parameterList → Describes d (.operation m path) p.schema
  | body {path : String} {m : Method} {o : Operation} {c : Content} {media : String} {s : Schema} :
      d.Serves path m o → o.requestBody = some c → c.content.get? media = some s →
      Describes d (.operation m path) s
  | response {path : String} {m : Method} {o : Operation} {rs : OrderedMap Content}
      {status : String} {c : Content} {media : String} {s : Schema} :
      d.Serves path m o → o.responses = some rs → rs.get? status = some c →
      c.content.get? media = some s → Describes d (.operation m path) s
  | property {name : String} {os : ObjectSchema} {property : String} {s : Schema} :
      d.schemas.get? name = some os → os.properties.get? property = some s →
      Describes d (.schema name) s

def Refers (d : Document) (place : Place) (reference : String) : Prop :=
  ∃ s, d.Describes place s ∧ s.Mentions reference

theorem mem_operations_iff {d : Document} {path : String} {m : Method} {o : Operation} :
    (path, m, o) ∈ d.operations ↔ d.Serves path m o := by
  unfold operations Serves
  rw [List.mem_flatMap]
  constructor
  · rintro ⟨⟨p, item⟩, he, ho⟩
    obtain ⟨x, hx, hp⟩ := List.mem_map.1 ho
    cases hp
    exact ⟨item, OrderedMap.mem_entries_iff.1 he, PathItem.mem_operations_iff.1 hx⟩
  · rintro ⟨item, he, ho⟩
    refine ⟨(path, item), OrderedMap.mem_entries_iff.2 he, ?_⟩
    exact List.mem_map.2 ⟨_, PathItem.mem_operations_iff.2 ho, rfl⟩

theorem mem_schemas_iff {d : Document} {path : String} {m : Method} {s : Schema} :
    (∃ o, d.Serves path m o ∧ s ∈ o.schemas) ↔ d.Describes (.operation m path) s := by
  constructor
  · rintro ⟨o, ho, hs⟩
    rcases List.mem_append.1 hs with hs | hs
    · obtain ⟨p, hp, rfl⟩ := List.mem_map.1 hs
      exact .parameter ho hp
    · obtain ⟨c, hc, hs⟩ := List.mem_flatMap.1 hs
      obtain ⟨media, hmedia⟩ := OrderedMap.mem_values_iff.1 hs
      rcases List.mem_append.1 hc with hc | hc
      · exact .body ho (Option.mem_toList.1 hc) hmedia
      · cases hr : o.responses with
        | none => simp [hr] at hc
        | some rs =>
          rw [hr] at hc
          obtain ⟨status, hstatus⟩ := OrderedMap.mem_values_iff.1 hc
          exact .response ho hr hstatus hmedia
  · intro h
    unfold Operation.schemas
    cases h with
    | parameter ho hp => exact ⟨_, ho, List.mem_append_left _ (List.mem_map_of_mem hp)⟩
    | body ho hb hmedia =>
      have hc := Option.mem_toList.2 hb
      have hs := OrderedMap.mem_values_iff.2 ⟨_, hmedia⟩
      exact ⟨_, ho, List.mem_append_right _ (List.mem_flatMap.2 ⟨_, List.mem_append_left _ hc, hs⟩)⟩
    | @response _ _ o rs status c _ _ ho hr hstatus hmedia =>
      have hc : c ∈ (o.responses.map (·.values)).getD [] := by
        rw [hr]
        exact OrderedMap.mem_values_iff.2 ⟨_, hstatus⟩
      have hs := OrderedMap.mem_values_iff.2 ⟨_, hmedia⟩
      exact ⟨_, ho, List.mem_append_right _ (List.mem_flatMap.2 ⟨_, List.mem_append_right _ hc, hs⟩)⟩

theorem mem_objectReferences_iff {d : Document} {name n : String} :
    (∃ os, d.schemas.get? name = some os ∧ n ∈ os.references) ↔
      ∃ s, d.Describes (.schema name) s ∧ n ∈ s.references := by
  constructor
  · rintro ⟨os, hos, hn⟩
    obtain ⟨s, hs, hn⟩ := List.mem_flatMap.1 hn
    obtain ⟨property, hproperty⟩ := OrderedMap.mem_values_iff.1 hs
    exact ⟨s, .property hos hproperty, hn⟩
  · rintro ⟨s, hs, hn⟩
    cases hs with
    | property hos hproperty =>
      exact ⟨_, hos, List.mem_flatMap.2 ⟨s, OrderedMap.mem_values_iff.2 ⟨_, hproperty⟩, hn⟩⟩

theorem mem_references_iff_describes {d : Document} {place : Place} {n : String} :
    (place, n) ∈ d.references ↔ ∃ s, d.Describes place s ∧ n ∈ s.references := by
  unfold references
  rw [List.mem_append, List.mem_flatMap, List.mem_flatMap]
  cases place with
  | operation m path =>
    constructor
    · rintro (⟨⟨_, _, o⟩, ho, hx⟩ | ⟨⟨_, os⟩, _, hx⟩)
      · obtain ⟨_, hn, he⟩ := List.mem_map.1 hx
        cases he
        obtain ⟨s, hs, hn⟩ := List.mem_flatMap.1 hn
        exact ⟨s, mem_schemas_iff.1 ⟨o, mem_operations_iff.1 ho, hs⟩, hn⟩
      · obtain ⟨_, _, he⟩ := List.mem_map.1 hx
        cases he
    · rintro ⟨s, hs, hn⟩
      obtain ⟨o, ho, hs⟩ := mem_schemas_iff.2 hs
      refine .inl ⟨(path, m, o), mem_operations_iff.2 ho, List.mem_map.2 ⟨n, ?_, rfl⟩⟩
      exact List.mem_flatMap.2 ⟨s, hs, hn⟩
  | schema name =>
    rw [← mem_objectReferences_iff]
    constructor
    · rintro (⟨⟨_, _, o⟩, _, hx⟩ | ⟨⟨_, os⟩, hos, hx⟩)
      · obtain ⟨_, _, he⟩ := List.mem_map.1 hx
        cases he
      · obtain ⟨_, hn, he⟩ := List.mem_map.1 hx
        cases he
        exact ⟨os, OrderedMap.mem_entries_iff.1 hos, hn⟩
    · rintro ⟨os, hos, hn⟩
      exact .inr ⟨(name, os), OrderedMap.mem_entries_iff.2 hos, List.mem_map.2 ⟨n, hn, rfl⟩⟩

/-- The references that are listed are the names of those that stand somewhere. -/
theorem mem_references_iff {d : Document} {place : Place} {n : String} :
    (place, n) ∈ d.references ↔ ∃ r, d.Refers place r ∧ Schema.LeadsTo r n := by
  rw [mem_references_iff_describes]
  simp only [Schema.mem_references_iff, Refers]
  constructor
  · rintro ⟨s, hs, r, hr, hn⟩
    exact ⟨r, ⟨s, hs, hr⟩, hn⟩
  · rintro ⟨r, ⟨s, hs, hr⟩, hn⟩
    exact ⟨s, hs, r, hr, hn⟩

end Document

end AnnotatedApi
