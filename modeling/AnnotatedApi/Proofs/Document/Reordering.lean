import AnnotatedApi.Build
import AnnotatedApi.Proofs.Catalogue.History

/-! Blocks in another order. Where nothing is defined twice, each look-up in the catalogue is the same
in every order, and validity depends on look-ups alone. Main statement: another order of the blocks
builds a document if the first one does, and it differs only in the order of its keys. -/
namespace AnnotatedApi

open Outcome

/-- No two routes share path and method, and no two models share a name. -/
structure NoRedefinition (ds : List Definition) : Prop where
  slots : ((ds.filterMap Definition.route?).map Route.slot).Nodup
  names : ((ds.filterMap Definition.model?).map (·.name)).Nodup

section Lookup

variable {α κ : Type} [DecidableEq κ] {key : α → κ} {l l' : List α}

private theorem find?_of_perm (h : l.Perm l') (hl : (l.map key).Nodup) (k : κ) :
    l.find? (key · = k) = l'.find? (key · = k) := by
  induction h with
  | nil => rfl
  | cons a _ ih =>
    rw [List.map_cons, List.nodup_cons] at hl
    rw [List.find?_cons, List.find?_cons, ih hl.2]
  | swap a b l =>
    -- At most one of the two has the key.
    have hne : key b ≠ key a := by
      intro he
      simp [he] at hl
    by_cases ha : key a = k
    · simp [ha, ha ▸ hne]
    · simp [List.find?_cons, ha]
  | trans h₁ _ ih₁ ih₂ => exact (ih₁ hl).trans (ih₂ ((h₁.map key).nodup_iff.1 hl))

/-- With distinct keys the last element of a key is its only one, in every order. -/
theorem find?_reverse_of_perm (h : l.Perm l') (hl : (l.map key).Nodup) (k : κ) :
    l.reverse.find? (key · = k) = l'.reverse.find? (key · = k) :=
  find?_of_perm ((l.reverse_perm.trans h).trans l'.reverse_perm.symm)
    ((l.reverse_perm.map key).nodup_iff.2 hl) k

end Lookup

theorem PathItem.eq_of_operation? {a b : PathItem} (ho : ∀ m, a.operation? m = b.operation? m)
    (hs : a.servers = b.servers) : a = b := by
  cases a
  cases b
  simp only [PathItem.mk.injEq]
  exact ⟨ho .get, ho .put, ho .post, ho .delete, ho .options, ho .head, ho .patch, ho .trace, hs⟩

theorem OrderedMap.perm_keys_of_get? {α : Type} {m m' : OrderedMap α}
    (h : ∀ key, m.get? key = m'.get? key) : m.keys.Perm m'.keys := by
  refine (List.perm_ext_iff_of_nodup m.nodup m'.nodup).2 ?_
  intro key
  change key ∈ m.keys ↔ key ∈ m'.keys
  rw [mem_keys_iff, mem_keys_iff, h]

namespace History

private theorem routes_map_add (ds : List Definition) :
    routes (ds.map .add) = ds.filterMap Definition.route? := by
  rw [routes, List.filterMap_map]
  rfl

private theorem models_map_add (ds : List Definition) :
    models (ds.map .add) = ds.filterMap Definition.model? := by
  rw [models, List.filterMap_map]
  rfl

private theorem lastServer?_map_add (ds : List Definition) (path : String) :
    lastServer? (ds.map .add) path = none := by
  have hnone : overridesSince (ds.map .add) path = [] := by
    refine List.filterMap_eq_nil_iff.2 ?_
    intro a ha
    obtain ⟨d, _, rfl⟩ := List.mem_map.1 ((List.dropWhile_suffix _).subset ha)
    rfl
  rw [lastServer?, hnone]
  rfl

end History

namespace Catalogue

/-- A path holds its operations and its servers, and nothing else. -/
theorem get?_paths_eq {c c' : Catalogue} {path : String}
    (hkeys : path ∈ c.paths.keys ↔ path ∈ c'.paths.keys)
    (ho : ∀ method, c.operation? path method = c'.operation? path method)
    (hs : c.serversAt path = c'.serversAt path) : c.paths.get? path = c'.paths.get? path := by
  simp only [operation?, serversAt, OrderedMap.mem_keys_iff] at hkeys ho hs
  cases h : c.paths.get? path with
  | none =>
    cases h' : c'.paths.get? path with
    | none => rfl
    | some item' => simp [h, h'] at hkeys
  | some item =>
    cases h' : c'.paths.get? path with
    | none => simp [h, h'] at hkeys
    | some item' =>
      simp only [h, h', Option.bind_some] at ho hs
      rw [PathItem.eq_of_operation? ho hs]

/-- Additions are a history without overrides. -/
theorem run_map_add (c : Catalogue) (ds : List Definition) : c.run (ds.map .add) = c.addAll ds := by
  induction ds generalizing c with
  | nil => rfl
  | cons d ds ih =>
    rw [List.map_cons, run, addAll, ← ih]
    rfl

variable {ds ds' : List Definition}

theorem get?_schemas_of_perm (hd : NoRedefinition ds) (h : ds.Perm ds') (name : String) :
    (ds.foldl add {}).schemas.get? name = (ds'.foldl add {}).schemas.get? name := by
  have hmodels := h.filterMap Definition.model?
  rw [← addAll_fst, ← addAll_fst, ← run_map_add, ← run_map_add, get?_schemas_run, get?_schemas_run,
    History.models_map_add, History.models_map_add, find?_reverse_of_perm hmodels hd.names]

theorem get?_paths_of_perm (hd : NoRedefinition ds) (h : ds.Perm ds') (path : String) :
    (ds.foldl add {}).paths.get? path = (ds'.foldl add {}).paths.get? path := by
  have hroutes := h.filterMap Definition.route?
  rw [← addAll_fst, ← addAll_fst, ← run_map_add, ← run_map_add]
  apply get?_paths_eq
  · rw [keys_paths_run, keys_paths_run, List.mem_eraseDups, List.mem_eraseDups,
      History.routes_map_add, History.routes_map_add, (hroutes.map _).mem_iff]
  · intro method
    rw [operation?_run, operation?_run, History.routes_map_add, History.routes_map_add,
      find?_reverse_of_perm hroutes hd.slots]
  · rw [serversAt_run, serversAt_run, History.lastServer?_map_add, History.lastServer?_map_add]

end Catalogue

namespace Document

/-- The same content, with paths and component schemas in another order. -/
structure SameUpToOrder (d d' : Document) : Prop where
  openapi : d.openapi = d'.openapi
  info : d.info = d'.info
  servers : d.servers = d'.servers
  pathKeys : d.paths.keys.Perm d'.paths.keys
  paths : ∀ path, d.paths.get? path = d'.paths.get? path
  schemaNames : d.schemas.keys.Perm d'.schemas.keys
  schemas : ∀ name, d.schemas.get? name = d'.schemas.get? name

namespace SameUpToOrder

variable {d d' : Document}

theorem symm (h : d.SameUpToOrder d') : d'.SameUpToOrder d where
  openapi := h.openapi.symm
  info := h.info.symm
  servers := h.servers.symm
  pathKeys := h.pathKeys.symm
  paths path := (h.paths path).symm
  schemaNames := h.schemaNames.symm
  schemas name := (h.schemas name).symm

theorem serves (h : d.SameUpToOrder d') {path : String} {m : Method} {o : Operation}
    (ho : d.Serves path m o) : d'.Serves path m o := by
  obtain ⟨item, hitem, ho⟩ := ho
  exact ⟨item, h.paths path ▸ hitem, ho⟩

theorem describes (h : d.SameUpToOrder d') {place : Place} {s : Schema} (hs : d.Describes place s) :
    d'.Describes place s := by
  cases hs with
  | parameter ho hp => exact .parameter (h.serves ho) hp
  | body ho hb hs => exact .body (h.serves ho) hb hs
  | response ho hr hc hs => exact .response (h.serves ho) hr hc hs
  | property hos hs => exact .property (h.schemas _ ▸ hos) hs

theorem valid (h : d.SameUpToOrder d') (hv : d.Valid) : d'.Valid where
  version := h.openapi ▸ hv.version
  paths path hp := hv.paths path (h.pathKeys.mem_iff.2 hp)
  operationIds path m o path' m' o' ho ho' hid :=
    hv.operationIds path m o path' m' o' (h.symm.serves ho) (h.symm.serves ho') hid
  operations path m o ho := hv.operations path m o (h.symm.serves ho)
  references place r n hr hto := by
    obtain ⟨s, hs, hr⟩ := hr
    exact h.schemaNames.mem_iff.1 (hv.references place r n ⟨s, h.symm.describes hs, hr⟩ hto)
  info := h.info ▸ hv.info

end SameUpToOrder

theorem sameUpToOrder_assemble (settings : Settings) {c c' : Catalogue}
    (hp : ∀ path, c.paths.get? path = c'.paths.get? path)
    (hs : ∀ name, c.schemas.get? name = c'.schemas.get? name) :
    (assemble settings c).SameUpToOrder (assemble settings c') := by
  have hpaths : ∀ path, (assemble settings c).paths.get? path =
      (assemble settings c').paths.get? path := by
    intro path
    unfold assemble applyOverrides
    rw [OrderedMap.get?_mapValues, OrderedMap.get?_mapValues, hp]
  exact ⟨rfl, rfl, rfl, OrderedMap.perm_keys_of_get? hpaths, hpaths,
    OrderedMap.perm_keys_of_get? hs, hs⟩

theorem exists_ofBlocks_eq_ok_iff {settings : Settings} {blocks : List Block} {d : Document} :
    (∃ warnings, ofBlocks settings blocks = .ok (d, warnings)) ↔
      (∀ b ∈ blocks, b.Compiles) ∧
        d = assemble settings ((definitions blocks).foldl Catalogue.add {}) ∧ d.Valid := by
  constructor
  · rintro ⟨warnings, h⟩
    obtain ⟨⟨c, ws⟩, hc, h⟩ := bind_eq_ok.1 h
    obtain ⟨d', hd', h⟩ := bind_eq_ok.1 h
    cases pure_eq_ok.1 h
    obtain ⟨hv, rfl⟩ := validate_eq_ok_iff.1 (mapError_eq_ok.1 hd')
    have hall := Catalogue.compiles_of_ofBlocks_eq_ok hc
    obtain ⟨ws', hc'⟩ := Catalogue.exists_ofBlocks_of_compiles hall
    cases hc.symm.trans hc'
    exact ⟨hall, rfl, hv⟩
  · rintro ⟨hall, rfl, hv⟩
    obtain ⟨warnings, hc⟩ := Catalogue.exists_ofBlocks_of_compiles hall
    refine ⟨warnings, ?_⟩
    rw [ofBlocks, hc]
    refine bind_eq_ok.2 ⟨_, rfl, bind_eq_ok.2 ⟨_, mapError_eq_ok.2 ?_, rfl⟩⟩
    exact validate_eq_ok_iff.2 ⟨hv, rfl⟩

theorem exists_ofBlocks_of_sameUpToOrder {settings : Settings} {blocks blocks' : List Block}
    (hmem : ∀ b ∈ blocks', b ∈ blocks)
    (hsame : (assemble settings ((definitions blocks).foldl Catalogue.add {})).SameUpToOrder
      (assemble settings ((definitions blocks').foldl Catalogue.add {})))
    (h : ∃ r, ofBlocks settings blocks = .ok r) : ∃ r, ofBlocks settings blocks' = .ok r := by
  obtain ⟨⟨d, warnings⟩, h⟩ := h
  obtain ⟨hall, rfl, hv⟩ := exists_ofBlocks_eq_ok_iff.1 ⟨warnings, h⟩
  obtain ⟨warnings', h'⟩ := exists_ofBlocks_eq_ok_iff.2
    ⟨fun b hb => hall b (hmem b hb), rfl, hsame.valid hv⟩
  exact ⟨_, h'⟩

/-- Another order of the blocks builds a document exactly when the first one does, with the same content
up to the order of its keys. -/
theorem ofBlocks_perm (settings : Settings) {blocks blocks' : List Block}
    (hperm : blocks.Perm blocks') (hd : NoRedefinition (definitions blocks)) :
    ((∃ r, ofBlocks settings blocks = .ok r) ↔ ∃ r, ofBlocks settings blocks' = .ok r) ∧
      ∀ d d' warnings warnings', ofBlocks settings blocks = .ok (d, warnings) →
        ofBlocks settings blocks' = .ok (d', warnings') → d.SameUpToOrder d' := by
  have hdefs : (definitions blocks).Perm (definitions blocks') := hperm.filterMap _
  have hsame := sameUpToOrder_assemble settings (Catalogue.get?_paths_of_perm hd hdefs)
    (Catalogue.get?_schemas_of_perm hd hdefs)
  refine ⟨⟨?_, ?_⟩, ?_⟩
  · exact exists_ofBlocks_of_sameUpToOrder (fun b => hperm.mem_iff.2) hsame
  · exact exists_ofBlocks_of_sameUpToOrder (fun b => hperm.mem_iff.1) hsame.symm
  · intro d d' warnings warnings' h h'
    obtain ⟨_, rfl, _⟩ := exists_ofBlocks_eq_ok_iff.1 ⟨warnings, h⟩
    obtain ⟨_, rfl, _⟩ := exists_ofBlocks_eq_ok_iff.1 ⟨warnings', h'⟩
    exact hsame

def petReferences : List Block :=
  [{ tags := [{ title := "event", description := "GET: /pets - list" },
      { title := "returns", description := "200", type := some (.name "Pet") }] },
    { tags := [{ title := "event", description := "PUT: /tags - put" },
      { title := "returns", description := "200", type := some (.name "Tag") }] },
    { tags := [{ title := "typedef", name := some "Pet" },
      { title := "property", name := some "tag", type := some (.name "Tag") }] },
    { tags := [{ title := "typedef", name := some "Tag" },
      { title := "property", name := some "pet", type := some (.name "Pet") }] }]

def petOverrides : Settings := { options := { servers := some [⟨"/p", "/", none⟩] } }

theorem ofBlocks_perm_pets :
    petReferences.Perm petReferences.reverse ∧ NoRedefinition (definitions petReferences) ∧
      ∃ d d' warnings warnings', ofBlocks petOverrides petReferences = .ok (d, warnings) ∧
        ofBlocks petOverrides petReferences.reverse = .ok (d', warnings') ∧
        d.paths.keys = ["/pets", "/tags"] ∧ d'.paths.keys = ["/tags", "/pets"] ∧
        d.SameUpToOrder d' := by
  have hperm : petReferences.Perm petReferences.reverse := petReferences.reverse_perm.symm
  have hd : NoRedefinition (definitions petReferences) := ⟨by decide +kernel, by decide +kernel⟩
  have h : (ofBlocks petOverrides petReferences).toOption.map (·.1.paths.keys) =
      some ["/pets", "/tags"] := by decide +kernel
  have h' : (ofBlocks petOverrides petReferences.reverse).toOption.map (·.1.paths.keys) =
      some ["/tags", "/pets"] := by decide +kernel
  obtain ⟨⟨d, warnings⟩, hbuilt, hkeys⟩ := Option.map_eq_some_iff.1 h
  obtain ⟨⟨d', warnings'⟩, hbuilt', hkeys'⟩ := Option.map_eq_some_iff.1 h'
  rw [toOption_eq_some] at hbuilt hbuilt'
  exact ⟨hperm, hd, d, d', warnings, warnings', hbuilt, hbuilt', hkeys, hkeys',
    (ofBlocks_perm petOverrides hperm hd).2 d d' warnings warnings' hbuilt hbuilt'⟩

end Document

end AnnotatedApi
