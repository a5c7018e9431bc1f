import AnnotatedApi.Build
import AnnotatedApi.Proofs.Document.Validity
import AnnotatedApi.Proofs.Outcome

/-! The shape of built documents. Each stage keeps an invariant: the schema of a type, the operation of
a route, the component of a model, the catalogue under additions. Main statement: every document that
is built is closed and well shaped. -/
namespace AnnotatedApi

open Outcome

namespace Schema

inductive Leaf : Schema → Prop
  | type (t : String) : Leaf { type := some t }
  | reference (r : String) : Leaf { reference := some r }

/-- The shape of a schema, whatever its description. -/
inductive Shaped : Schema → Prop
  | empty (d : Option String) : Shaped { description := d }
  | type (d : Option String) (t : String) : Shaped { description := d, type := some t }
  | reference (d : Option String) (r : String) : Shaped { description := d, reference := some r }
  | oneOf (d : Option String) {ls : List Schema} :
      (∀ l ∈ ls, Leaf l) → Shaped { description := d, oneOf := some ls }
  | array (d : Option String) (t : String) {l : Schema} :
      Leaf l → Shaped { description := d, type := some t, items := some l }

/-- Every reference starts at the root of the components. -/
def Rooted (s : Schema) : Prop := ∀ r, s.Mentions r → ∃ n, r = componentRoot ++ n

structure Resolved (s : Schema) : Prop where
  shaped : s.Shaped
  rooted : s.Rooted

theorem Leaf.shaped {s : Schema} (h : s.Leaf) : s.Shaped := by
  cases h with
  | type t => exact .type none t
  | reference r => exact .reference none r

theorem rooted_of_type (d t : Option String) : Rooted { description := d, type := t } := by
  intro r h
  cases h with
  | here h => cases h
  | oneOf h => cases h
  | items h => cases h

theorem rooted_ofReference (n : String) : (ofReference n).Rooted := by
  intro r h
  cases h with
  | here h =>
    cases h
    exact ⟨n, rfl⟩
  | oneOf h => cases h
  | items h => cases h

theorem Resolved.withDescription {s : Schema} (h : s.Resolved) (d : Option String) :
    Resolved { s with description := d } where
  shaped := by
    cases h.shaped with
    | empty => exact .empty d
    | type _ t => exact .type d t
    | reference _ r => exact .reference d r
    | oneOf _ hls => exact .oneOf d hls
    | array _ t hl => exact .array d t hl
  rooted := by
    intro r hr
    apply h.rooted
    cases hr with
    | here hr => exact .here hr
    | oneOf ho ht hr => exact .oneOf ho ht hr
    | items hi hr => exact .items hi hr

end Schema

namespace TypeExpr

theorem leaf_schemaOfName (n : String) : (schemaOfName n).Leaf ∧ (schemaOfName n).Rooted := by
  unfold schemaOfName
  split
  · exact ⟨.type n, Schema.rooted_of_type none n⟩
  · exact ⟨.reference _, Schema.rooted_ofReference n⟩

private theorem leaf_of_leaf_eq_ok {t : TypeExpr} {s : Schema} (h : t.leaf = .ok s) :
    s.Leaf ∧ s.Rooted := by
  unfold leaf at h
  split at h
  next n =>
    cases h
    exact leaf_schemaOfName n
  next => cases h

/-- The schema of a type has one of the shapes. -/
theorem resolved_of_schema_eq_ok {t : TypeExpr} {s : Schema} (h : t.schema = .ok s) :
    s.Resolved := by
  unfold schema at h
  split at h
  next n =>
    cases h
    exact ⟨(leaf_schemaOfName n).1.shaped, (leaf_schemaOfName n).2⟩
  next t =>
    cases h
    refine ⟨?_, Schema.rooted_of_type none _⟩
    cases t.name? with
    | none => exact .empty none
    | some n => exact .type none n
  next ts =>
    obtain ⟨ls, hls, h⟩ := bind_eq_ok.1 h
    cases pure_eq_ok.1 h
    have hleaf : ∀ l ∈ ls, l.Leaf ∧ l.Rooted := by
      intro l hl
      obtain ⟨t, _, ht⟩ := exists_of_mapM_eq_ok hls hl
      exact leaf_of_leaf_eq_ok ht
    refine ⟨.oneOf none fun l hl => (hleaf l hl).1, ?_⟩
    intro r hr
    cases hr with
    | here hr => cases hr
    | oneOf ho ht hr =>
      cases ho
      exact (hleaf _ ht).2 r hr
    | items hi => cases hi
  next container t _ =>
    obtain ⟨l, hl, h⟩ := bind_eq_ok.1 h
    cases pure_eq_ok.1 h
    have hleaf := leaf_of_leaf_eq_ok hl
    refine ⟨.array none _ hleaf.1, ?_⟩
    intro r hr
    cases hr with
    | here hr => cases hr
    | oneOf ho => cases ho
    | items hi hr =>
      cases hi
      exact hleaf.2 r hr
  next => cases h

end TypeExpr

/-- Content of exactly one type of media. -/
structure Content.Shaped (c : Content) : Prop where
  keys : c.content.keys = ["application/json"]
  schemas : ∀ media s, c.content.get? media = some s → s.Resolved

structure Operation.Shaped (o : Operation) : Prop where
  parameters : ∀ p ∈ o.parameterList, p.schema.Resolved
  body : ∀ c ∈ o.requestBody, c.Shaped
  responses : ∀ rs ∈ o.responses, ∀ status c, rs.get? status = some c → c.Shaped

structure ObjectSchema.Shaped (os : ObjectSchema) : Prop where
  properties : ∀ property s, os.properties.get? property = some s → s.Resolved
  required : ∀ property ∈ os.required, property ∈ os.properties.keys

theorem Content.shaped_json (description : String) {s : Schema} (h : s.Resolved) :
    (json description s).Shaped where
  keys := rfl
  schemas media s' hs := by
    unfold json at hs
    rw [OrderedMap.get?_insert] at hs
    split at hs
    · cases hs
      exact h
    · rw [OrderedMap.get?_empty] at hs
      cases hs

namespace Route

private theorem getD_nonempty? {α : Type} (xs : List α) : (nonempty? xs).getD [] = xs := by
  unfold nonempty?
  cases xs <;> rfl

theorem resolved_of_parameter_eq_ok {t : TypedTag} {p : Parameter} (h : parameter t = .ok p) :
    p.schema.Resolved := by
  obtain ⟨s, hs, h⟩ := bind_eq_ok.1 h
  cases pure_eq_ok.1 h
  exact TypeExpr.resolved_of_schema_eq_ok hs

theorem shaped_of_response_eq_ok {t : ReturnsTag} {r : String × Content} (h : response t = .ok r) :
    r.2.Shaped := by
  obtain ⟨s, hs, h⟩ := bind_eq_ok.1 h
  cases pure_eq_ok.1 h
  exact Content.shaped_json _ (TypeExpr.resolved_of_schema_eq_ok hs)

theorem shaped_of_compile_eq_ok {b : Block} {r : Route} (h : compile b = .ok r) :
    r.operation.Shaped := by
  obtain ⟨roles, _, h⟩ := bind_eq_ok.1 h
  obtain ⟨event, _, h⟩ := bind_eq_ok.1 h
  obtain ⟨body, hbody, h⟩ := bind_eq_ok.1 h
  obtain ⟨parameters, hparameters, h⟩ := bind_eq_ok.1 h
  obtain ⟨responses, hresponses, h⟩ := bind_eq_ok.1 h
  cases pure_eq_ok.1 h
  constructor
  · intro p hp
    have hp : p ∈ parameters := by
      rwa [Operation.parameterList, getD_nonempty?] at hp
    obtain ⟨t, _, ht⟩ := exists_of_mapM_eq_ok hparameters hp
    exact resolved_of_parameter_eq_ok ht
  · intro c hc
    obtain ⟨t, _, ht⟩ := exists_of_option_mapM_eq_ok hbody hc
    obtain ⟨s, hs, ht⟩ := bind_eq_ok.1 ht
    cases pure_eq_ok.1 ht
    exact Content.shaped_json _ (TypeExpr.resolved_of_schema_eq_ok hs)
  · intro rs hrs status c hc
    obtain ⟨rs', hrs', rfl⟩ := Option.map_eq_some_iff.1 hrs
    cases eq_of_mem_nonempty? hrs'
    obtain ⟨t, _, ht⟩ := exists_of_mapM_eq_ok hresponses (OrderedMap.mem_of_get?_ofList hc)
    exact shaped_of_response_eq_ok ht

end Route

namespace Model

theorem shaped_of_compile_eq_ok {b : Block} {m : Model} (h : compile b = .ok m) :
    m.schema.Shaped := by
  obtain ⟨roles, _, h⟩ := bind_eq_ok.1 h
  obtain ⟨typedef, _, h⟩ := bind_eq_ok.1 h
  split at h
  next => cases h
  next =>
    obtain ⟨properties, hproperties, h⟩ := bind_eq_ok.1 h
    cases pure_eq_ok.1 h
    constructor
    · intro name s hs
      obtain ⟨t, _, ht⟩ := exists_of_mapM_eq_ok hproperties (OrderedMap.mem_of_get?_ofList hs)
      obtain ⟨s', hs', ht⟩ := bind_eq_ok.1 ht
      cases pure_eq_ok.1 ht
      exact (TypeExpr.resolved_of_schema_eq_ok hs').withDescription _
    · intro name hname
      obtain ⟨t, ht, rfl⟩ := List.mem_map.1 hname
      obtain ⟨p, hp, ht⟩ := exists_result_of_mapM_eq_ok hproperties (List.mem_filter.1 ht).1
      obtain ⟨s', _, ht⟩ := bind_eq_ok.1 ht
      cases pure_eq_ok.1 ht
      exact OrderedMap.mem_keys_ofList_iff.2 (List.mem_map_of_mem hp)

end Model

/-- Some operation is served, and all that are served have their shape. -/
structure PathItem.Shaped (item : PathItem) : Prop where
  nonempty : ∃ m o, item.operation? m = some o
  operations : ∀ m o, item.operation? m = some o → o.Shaped

def Definition.Shaped : Definition → Prop
  | .route r => r.operation.Shaped
  | .model m => m.schema.Shaped

namespace Catalogue

structure Shaped (c : Catalogue) : Prop where
  paths : ∀ path item, c.paths.get? path = some item → item.Shaped
  schemas : ∀ name os, c.schemas.get? name = some os → os.Shaped

theorem shaped_empty : Shaped {} where
  paths _ _ h := by cases h
  schemas _ _ h := by cases h

theorem Shaped.addRoute {c : Catalogue} (h : c.Shaped) {r : Route} (hr : r.operation.Shaped) :
    (c.addRoute r).Shaped where
  paths path item hitem := by
    unfold Catalogue.addRoute at hitem
    rw [OrderedMap.get?_insert] at hitem
    split at hitem
    next =>
      cases hitem
      refine ⟨⟨r.method, r.operation, by simp⟩, ?_⟩
      intro m o ho
      rw [PathItem.operation?_setOperation] at ho
      split at ho
      · cases ho
        exact hr
      · cases hold : c.paths.get? r.path with
        | none =>
          rw [hold] at ho
          cases m <;> cases ho
        | some old =>
          rw [hold] at ho
          exact (h.paths r.path old hold).operations m o ho
    next => exact h.paths path item hitem
  schemas := h.schemas

theorem Shaped.addModel {c : Catalogue} (h : c.Shaped) {m : Model} (hm : m.schema.Shaped) :
    (c.addModel m).Shaped where
  paths := h.paths
  schemas name os hos := by
    unfold Catalogue.addModel at hos
    rw [OrderedMap.get?_insert] at hos
    split at hos
    next =>
      cases hos
      exact hm
    next => exact h.schemas name os hos

theorem Shaped.add {c : Catalogue} (h : c.Shaped) {d : Definition} (hd : d.Shaped) :
    (c.add d).Shaped := by
  cases d with
  | route r => exact h.addRoute hd
  | model m => exact h.addModel hd

theorem Shaped.addAll {c : Catalogue} (h : c.Shaped) {ds : List Definition}
    (hds : ∀ d ∈ ds, d.Shaped) : (c.addAll ds).1.Shaped := by
  induction ds generalizing c with
  | nil => exact h
  | cons d ds ih =>
    obtain ⟨hd, hds⟩ := List.forall_mem_cons.1 hds
    exact ih (h.add hd) hds

theorem shaped_of_ofBlocks_eq_ok {blocks : List Block} {c : Catalogue} {warnings : List Warning}
    (h : ofBlocks blocks = .ok (c, warnings)) : c.Shaped := by
  obtain ⟨routes, hroutes, h⟩ := bind_eq_ok.1 h
  obtain ⟨models, hmodels, h⟩ := bind_eq_ok.1 h
  have hc : c = (({} : Catalogue).addAll (routes.map .route ++ models.map .model)).1 := by
    rw [pure_eq_ok.1 h]
  rw [hc]
  apply shaped_empty.addAll
  intro d hd
  rcases List.mem_append.1 hd with hd | hd
  · obtain ⟨r, hr, rfl⟩ := List.mem_map.1 hd
    obtain ⟨b, _, hb⟩ := exists_of_mapM_eq_ok hroutes hr
    exact Route.shaped_of_compile_eq_ok hb
  · obtain ⟨m, hm, rfl⟩ := List.mem_map.1 hd
    obtain ⟨b, _, hb⟩ := exists_of_mapM_eq_ok hmodels hm
    exact Model.shaped_of_compile_eq_ok hb

theorem operation?_override (overrides : List ServerOverride) (c : Catalogue) {path : String}
    {item : PathItem} (h : (c.override overrides).paths.get? path = some item) :
    ∃ old, c.paths.get? path = some old ∧ ∀ m, item.operation? m = old.operation? m := by
  unfold override applyOverrides at h
  rw [OrderedMap.get?_mapValues] at h
  obtain ⟨old, hold, rfl⟩ := Option.map_eq_some_iff.1 h
  refine ⟨old, hold, fun m => ?_⟩
  split
  · cases m <;> rfl
  · rfl

/-- Servers change nothing in the operations. -/
theorem Shaped.override {c : Catalogue} (h : c.Shaped) (overrides : List ServerOverride) :
    (c.override overrides).Shaped where
  paths path item hitem := by
    obtain ⟨old, hold, hop⟩ := operation?_override overrides c hitem
    obtain ⟨⟨m, o, ho⟩, hall⟩ := h.paths path old hold
    refine ⟨⟨m, o, by rw [hop, ho]⟩, ?_⟩
    intro m o ho
    rw [hop] at ho
    exact hall m o ho
  schemas := h.schemas

end Catalogue

namespace Document

/-- References lead to components by their place, schemas have their shape, content is JSON, every path
serves something, and required properties exist. -/
structure WellShaped (d : Document) : Prop where
  references : ∀ place r, d.Refers place r → ∃ n ∈ d.schemas.keys, r = "#/components/schemas/" ++ n
  schemas : ∀ place s, d.Describes place s → s.Shaped
  bodies : ∀ path m o c, d.Serves path m o → o.requestBody = some c →
    c.content.keys = ["application/json"]
  responses : ∀ path m o rs status c, d.Serves path m o → o.responses = some rs →
    rs.get? status = some c → c.content.keys = ["application/json"]
  paths : ∀ path ∈ d.paths.keys, ∃ m o, d.Serves path m o
  required : ∀ name os, d.schemas.get? name = some os →
    ∀ property ∈ os.required, property ∈ os.properties.keys

def catalogue (d : Document) : Catalogue := ⟨d.paths, d.schemas⟩

variable {d : Document}

theorem shaped_of_serves (h : d.catalogue.Shaped) {path : String} {m : Method} {o : Operation}
    (ho : d.Serves path m o) : o.Shaped := by
  obtain ⟨item, hitem, ho⟩ := ho
  exact (h.paths path item hitem).operations m o ho

theorem resolved_of_describes (h : d.catalogue.Shaped) {place : Place} {s : Schema}
    (hs : d.Describes place s) : s.Resolved := by
  cases hs with
  | parameter ho hp => exact (shaped_of_serves h ho).parameters _ hp
  | body ho hc hs => exact ((shaped_of_serves h ho).body _ hc).schemas _ _ hs
  | response ho hrs hc hs => exact ((shaped_of_serves h ho).responses _ hrs _ _ hc).schemas _ _ hs
  | property hos hs => exact (h.schemas _ _ hos).properties _ _ hs

theorem wellShaped_of_valid (h : d.catalogue.Shaped) (hv : d.Valid) : d.WellShaped where
  references place r := by
    rintro ⟨s, hs, hr⟩
    obtain ⟨n, rfl⟩ := (resolved_of_describes h hs).rooted r hr
    exact ⟨n, hv.references place _ n ⟨s, hs, hr⟩ (.inl rfl), rfl⟩
  schemas place s hs := (resolved_of_describes h hs).shaped
  bodies path m o c ho hc := ((shaped_of_serves h ho).body c hc).keys
  responses path m o rs status c ho hrs hc := ((shaped_of_serves h ho).responses rs hrs status c hc).keys
  paths path hpath := by
    obtain ⟨item, hitem⟩ := OrderedMap.mem_keys_iff.1 hpath
    obtain ⟨m, o, ho⟩ := (h.paths path item hitem).nonempty
    exact ⟨m, o, item, hitem, ho⟩
  required name os hos := (h.schemas name os hos).required

theorem exists_of_build_eq_ok {settings : Settings} {text : String} {warnings : List Warning}
    (h : build settings text = .ok (d, warnings)) :
    ∃ c ws, Catalogue.ofBlocks (Annotations.parse text).blocks = .ok (c, ws) ∧
      d = assemble settings c ∧ d.Valid := by
  unfold build at h
  split at h
  next =>
    obtain ⟨⟨d', ws'⟩, hblocks, h⟩ := bind_eq_ok.1 h
    cases pure_eq_ok.1 h
    obtain ⟨⟨c, ws⟩, hc, hblocks⟩ := bind_eq_ok.1 hblocks
    obtain ⟨d', hvalidate, hblocks⟩ := bind_eq_ok.1 hblocks
    cases pure_eq_ok.1 hblocks
    obtain ⟨hv, rfl⟩ := validate_eq_ok_iff.1 (mapError_eq_ok.1 hvalidate)
    exact ⟨c, _, hc, rfl, hv⟩
  next => cases h

/-- Every document that is built is closed and well shaped. -/
theorem wellShaped_of_build_eq_ok {settings : Settings} {text : String} {warnings : List Warning}
    (h : build settings text = .ok (d, warnings)) : d.WellShaped := by
  obtain ⟨c, ws, hc, rfl, hv⟩ := exists_of_build_eq_ok h
  have hshaped := (Catalogue.shaped_of_ofBlocks_eq_ok hc).override (settings.options.servers.getD [])
  exact wellShaped_of_valid hshaped hv

/-- References in a body, in the items of a response, and in a property with two types. -/
def petText : String :=
  "/**\n@event POST: /pets - add\n@param {Pet} body.pet\n@returns {Pet[]} 200\n*/" ++
    "/**\n@typedef Pet\n@property {Pet|Tag} a*//**\n@typedef Tag*/"

def petSettings : Settings := { config := { servers := some [⟨"/", none⟩] } }

theorem wellShaped_petText : ∃ d warnings, build petSettings petText = .ok (d, warnings) ∧
    d.paths.keys = ["/pets"] ∧ d.schemas.keys = ["Pet", "Tag"] ∧ d.WellShaped := by
  have h : (build petSettings petText).toOption.map (fun r => (r.1.paths.keys, r.1.schemas.keys)) =
      some (["/pets"], ["Pet", "Tag"]) := by
    decide +kernel
  obtain ⟨⟨d, warnings⟩, hd, hkeys⟩ := Option.map_eq_some_iff.1 h
  have hd : build petSettings petText = .ok (d, warnings) := toOption_eq_some.1 hd
  obtain ⟨hpaths, hschemas⟩ := Prod.mk.inj hkeys
  exact ⟨d, warnings, hd, hpaths, hschemas, wellShaped_of_build_eq_ok hd⟩

end Document

end AnnotatedApi
