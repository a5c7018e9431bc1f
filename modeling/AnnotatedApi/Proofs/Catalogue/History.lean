import AnnotatedApi.Proofs.Catalogue.Grouping
import AnnotatedApi.Proofs.Document.Validity
import Mathlib.Data.List.Induction
import Mathlib.Data.List.TakeWhile

/-! Catalogues as the outcome of a history: routes and models that are added and overrides that are
applied, in any order. Each view of a catalogue has one equation for one more action, and what a whole
history leaves follows by induction on its last action. Main statement: the history alone says what the
catalogue holds, in which order, and which warnings there were. -/
namespace AnnotatedApi

private theorem find?_reverse_append_toList {α : Type} (p : α → Bool) (l : List α) (o : Option α) :
    (l ++ o.toList).reverse.find? p = (o.filter p).or (l.reverse.find? p) := by
  cases o with
  | none => simp
  | some a => by_cases ha : p a <;> simp [Option.filter_some, ha]

private theorem eraseDups_append_toList (l : List String) (o : Option String) :
    (l ++ o.toList).eraseDups = l.eraseDups ++ (o.filter (· ∉ l.eraseDups)).toList := by
  cases o with
  | none => simp
  | some s =>
    rw [List.eraseDups_append, Option.toList_some]
    by_cases hs : s ∈ l <;> simp [Option.filter_some, List.removeAll, List.eraseDups_cons, hs]

inductive Action where
  | add (d : Definition)
  | override (overrides : List ServerOverride)

def Route.slot (r : Route) : String × Method := (r.path, r.method)

namespace Action

def route? : Action → Option Route
  | add d => d.route?
  | override _ => none

def model? : Action → Option Model
  | add d => d.model?
  | override _ => none

def overrides? : Action → Option (List ServerOverride)
  | add _ => none
  | override overrides => some overrides

def addsAt (path : String) (a : Action) : Bool := a.route?.any (·.path = path)

end Action

namespace ServerOverride

def server (o : ServerOverride) : Server := ⟨o.url, some (o.description.getD "")⟩

/-- The server that an application of overrides sets: of the first one whose root starts the path. -/
def server? (path : String) (overrides : List ServerOverride) : Option Server :=
  (overrides.find? (·.root.toList <+: path.toList)).map server

end ServerOverride

def Warning.isRedefinition : Warning → Bool
  | operationRedefined _ _ _ | schemaRedefined _ => true
  | unterminatedComment => false

/-- What happened to a catalogue, the last action at the end. -/
abbrev History := List Action

namespace History

def routes (h : History) : List Route := h.filterMap Action.route?

def models (h : History) : List Model := h.filterMap Action.model?

/-- The overrides that were applied after a path had its first route. -/
def overridesSince (h : History) (path : String) : List (List ServerOverride) :=
  (h.dropWhile (!·.addsAt path)).filterMap Action.overrides?

def lastServer? (h : History) (path : String) : Option Server :=
  (h.overridesSince path).reverse.findSome? (ServerOverride.server? path)

/-- The warning that goes with one more action: what a route or a model takes the place of. -/
def redefinition? (h : History) : Action → Option Warning
  | .add (.route r) => (h.routes.reverse.find? (·.slot = r.slot)).map fun last =>
      .operationRedefined r.method r.path last.operation.operationId
  | .add (.model m) => if m.name ∈ h.models.map (·.name) then some (.schemaRedefined m.name) else none
  | .override _ => none

/-- The warnings of the actions in `rest` when those of `h` are over. -/
def redefinitionsIn (h : History) : History → List Warning
  | [] => []
  | a :: rest => (h.redefinition? a).toList ++ redefinitionsIn (h ++ [a]) rest

def redefinitions (h : History) : List Warning := redefinitionsIn [] h

variable (h : History) (a : Action) (path : String)

private theorem redefinitionsIn_concat (rest : History) : redefinitionsIn h (rest ++ [a]) =
    redefinitionsIn h rest ++ (redefinition? (h ++ rest) a).toList := by
  induction rest generalizing h with
  | nil => simp [redefinitionsIn]
  | cons b rest ih => simp [redefinitionsIn, ih]

theorem redefinitions_concat :
    redefinitions (h ++ [a]) = h.redefinitions ++ (h.redefinition? a).toList :=
  redefinitionsIn_concat [] a h

theorem routes_concat : routes (h ++ [a]) = h.routes ++ a.route?.toList := by
  cases ha : a.route? <;> simp [routes, ha]

theorem models_concat : models (h ++ [a]) = h.models ++ a.model?.toList := by
  cases ha : a.model? <;> simp [models, ha]

private theorem dropWhile_addsAt_eq_nil_iff :
    h.dropWhile (!·.addsAt path) = [] ↔ path ∉ h.routes.map (·.path) := by
  rw [List.dropWhile_eq_nil_iff]
  simp only [Action.addsAt, Bool.not_eq_true', Option.any_eq_false, decide_eq_false_iff_not, routes,
    List.mem_map, List.mem_filterMap]
  constructor
  · rintro hall ⟨r, ⟨a, ha, hr⟩, hp⟩
    exact hall a ha r hr hp
  · intro hno a ha r hr hp
    exact hno ⟨r, ⟨a, ha, hr⟩, hp⟩

theorem lastServer?_concat : lastServer? (h ++ [a]) path =
    if path ∈ h.routes.map (·.path) then
      (a.overrides?.bind (ServerOverride.server? path)).or (h.lastServer? path)
    else none := by
  unfold lastServer? overridesSince
  rw [List.dropWhile_append]
  by_cases hp : path ∈ h.routes.map (·.path)
  · have hne := mt (dropWhile_addsAt_eq_nil_iff h path).1 (not_not.2 hp)
    rw [if_pos hp, if_neg (by simpa using hne)]
    cases ha : a.overrides? with
    | none => simp [ha]
    | some os => cases hs : ServerOverride.server? path os <;> simp [ha, hs]
  · have hnil := (dropWhile_addsAt_eq_nil_iff h path).2 hp
    rw [if_neg hp, hnil, List.isEmpty_nil, if_pos rfl]
    -- The action that adds the path for the first time is no override.
    cases a with
    | add d => cases hd : (Action.add d).addsAt path <;> simp [hd, Action.overrides?]
    | override os => simp [Action.addsAt, Action.route?]

end History

namespace Catalogue

def act (c : Catalogue) : Action → Catalogue
  | .add d => c.add d
  | .override overrides => c.override overrides

def warning? (c : Catalogue) : Action → Option Warning
  | .add d => c.addWarning? d
  | .override _ => none

/-- The catalogue after a history, and all warnings on the way. -/
def run (c : Catalogue) : History → Catalogue × List Warning
  | [] => (c, [])
  | a :: rest =>
    let (result, warnings) := (c.act a).run rest
    (result, (c.warning? a).toList ++ warnings)

theorem run_concat (c : Catalogue) (h : History) (a : Action) :
    c.run (h ++ [a]) = ((c.run h).1.act a, (c.run h).2 ++ ((c.run h).1.warning? a).toList) := by
  induction h generalizing c with
  | nil => simp [run]
  | cons b h ih => simp [run, ih]

def serversAt (c : Catalogue) (path : String) : Option (List Server) :=
  (c.paths.get? path).bind (·.servers)

def slots (c : Catalogue) : List (String × Method) :=
  c.paths.entries.flatMap fun e => e.2.operations.map fun x => (e.1, x.1)

section Views

variable (c : Catalogue) (a : Action) (path : String) (method : Method)

theorem get?_addRoute (r : Route) : (c.addRoute r).paths.get? path =
    if r.path = path then some (((c.paths.get? path).getD {}).setOperation r.method r.operation)
    else c.paths.get? path := by
  unfold addRoute
  rw [OrderedMap.get?_insert]
  split
  next he => rw [he]
  next => rfl

theorem get?_override (os : List ServerOverride) : (c.override os).paths.get? path =
    (c.paths.get? path).map fun item => { item with
      servers := ((ServerOverride.server? path os).map ([·])).or item.servers } := by
  unfold override applyOverrides ServerOverride.server?
  rw [OrderedMap.get?_mapValues]
  cases os.find? (·.root.toList <+: path.toList) <;> simp [ServerOverride.server]

theorem operation?_act : (c.act a).operation? path method =
    ((a.route?.filter (·.slot = (path, method))).map (·.operation)).or
      (c.operation? path method) := by
  cases a with
  | add d =>
    cases d with
    | route r =>
      have hempty : ({} : PathItem).operation? method = none := by cases method <;> rfl
      simp only [act, add, operation?, get?_addRoute, Action.route?, Definition.route?, Route.slot,
        Option.filter_some, Prod.mk.injEq]
      by_cases hp : r.path = path
      · by_cases hm : r.method = method <;> cases c.paths.get? path <;> simp [hp, hm, hempty]
      · simp [hp]
    | model m => rfl
  | override os =>
    simp only [act, operation?, get?_override, Action.route?]
    cases c.paths.get? path <;> cases method <;> rfl

theorem get?_schemas_act (name : String) : (c.act a).schemas.get? name =
    ((a.model?.filter (·.name = name)).map (·.schema)).or (c.schemas.get? name) := by
  cases a with
  | add d =>
    cases d with
    | route r => rfl
    | model m =>
      simp only [act, add, addModel, OrderedMap.get?_insert, Action.model?, Definition.model?,
        Option.filter_some]
      by_cases hm : m.name = name <;> simp [hm]
  | override os => rfl

theorem keys_paths_act : (c.act a).paths.keys =
    c.paths.keys ++ ((a.route?.map (·.path)).filter (· ∉ c.paths.keys)).toList := by
  cases a with
  | add d =>
    cases d with
    | route r =>
      by_cases hp : r.path ∈ c.paths.keys <;>
        simp [act, add, addRoute, Action.route?, Definition.route?, Option.filter_some, hp]
    | model m => exact (List.append_nil _).symm
  | override os =>
    simp [act, override, applyOverrides, Action.route?]

theorem keys_schemas_act : (c.act a).schemas.keys =
    c.schemas.keys ++ ((a.model?.map (·.name)).filter (· ∉ c.schemas.keys)).toList := by
  cases a with
  | add d =>
    cases d with
    | route r => exact (List.append_nil _).symm
    | model m =>
      by_cases hm : m.name ∈ c.schemas.keys <;>
        simp [act, add, addModel, Action.model?, Definition.model?, Option.filter_some, hm]
  | override os => exact (List.append_nil _).symm

/-- Only overrides change the servers, and only of paths that are there. -/
theorem serversAt_act : (c.act a).serversAt path =
    if path ∈ c.paths.keys then
      ((a.overrides?.bind (ServerOverride.server? path)).map ([·])).or (c.serversAt path)
    else none := by
  have hkeys : path ∈ c.paths.keys ↔ c.paths.get? path ≠ none := by
    rw [OrderedMap.mem_keys_iff, Option.ne_none_iff_exists']
  unfold serversAt
  cases a with
  | add d =>
    cases d with
    | route r =>
      simp only [act, add, get?_addRoute, Action.overrides?, hkeys]
      by_cases hp : r.path = path <;> cases c.paths.get? path <;> simp [hp]
    | model m =>
      simp only [act, add, addModel, Action.overrides?, hkeys]
      cases c.paths.get? path <;> simp
  | override os =>
    simp only [act, get?_override, Action.overrides?, hkeys]
    cases c.paths.get? path <;> simp

theorem mem_slots_iff : (path, method) ∈ c.slots ↔ c.operation? path method ≠ none := by
  simp only [slots, List.mem_flatMap, List.mem_map, Option.ne_none_iff_exists', operation?,
    Option.bind_eq_some_iff]
  constructor
  · rintro ⟨⟨p, item⟩, he, ⟨m, o⟩, ho, heq⟩
    cases heq
    exact ⟨o, item, OrderedMap.mem_entries_iff.1 he, PathItem.mem_operations_iff.1 ho⟩
  · rintro ⟨o, item, he, ho⟩
    exact ⟨(path, item), OrderedMap.mem_entries_iff.2 he, (method, o),
      PathItem.mem_operations_iff.2 ho, rfl⟩

private theorem nodup_slots : c.slots.Nodup := by
  let d : Document :=
    { openapi := "", info := {}, servers := [], paths := c.paths, schemas := c.schemas }
  have hslots : c.slots = d.operations.map fun x => (x.1, x.2.1) := by
    simp [slots, Document.operations, d, List.map_flatMap, Function.comp_def]
  rw [hslots, List.Nodup, List.pairwise_map]
  refine d.pairwise_place_ne.imp ?_
  intro x y hne he
  exact hne (congrArg (fun s : String × Method => Place.operation s.2 s.1) he)

theorem slots_act : (c.act a).slots.Perm
    (c.slots ++ ((a.route?.map Route.slot).filter (· ∉ c.slots)).toList) := by
  refine (List.perm_ext_iff_of_nodup (nodup_slots _) (List.nodup_append.2 ⟨nodup_slots _, ?_, ?_⟩)).2 ?_
  · cases (a.route?.map Route.slot).filter (· ∉ c.slots) <;> simp
  · rintro s hs _ hs' rfl
    have hnew := (Option.filter_eq_some_iff.1 (Option.mem_toList.1 hs')).2
    simp [hs] at hnew
  · rintro ⟨path, method⟩
    rw [List.mem_append, mem_slots_iff, mem_slots_iff, operation?_act]
    cases a.route? with
    | none => simp
    | some r =>
      by_cases hr : r.slot = (path, method)
      · have hslot := c.mem_slots_iff path method
        cases ho : c.operation? path method <;> simp [Option.filter_some, hr, hslot, ho]
      · by_cases hs : r.slot ∈ c.slots <;> simp [Option.filter_some, hr, hs, Ne.symm hr]

/-- An addition fills a slot, or makes a schema, or gives a warning. -/
theorem length_warning?_act :
    (c.warning? a).toList.length + (c.act a).slots.length + (c.act a).schemas.keys.length =
      c.slots.length + c.schemas.keys.length + a.route?.toList.length + a.model?.toList.length := by
  rw [(c.slots_act a).length_eq, keys_schemas_act, List.length_append, List.length_append]
  cases a with
  | add d =>
    cases d with
    | route r =>
      have hslot : r.slot ∈ c.slots ↔ _ := c.mem_slots_iff r.path r.method
      simp only [warning?, addWarning?, Action.route?, Action.model?, Definition.route?,
        Definition.model?, Option.map_some, Option.map_none, Option.filter_some, hslot]
      cases c.operation? r.path r.method <;> simp <;> omega
    | model m =>
      simp only [warning?, addWarning?, Action.route?, Action.model?, Definition.route?,
        Definition.model?, Option.map_some, Option.map_none, Option.filter_some]
      by_cases hm : m.name ∈ c.schemas.keys <;> simp [OrderedMap.contains, hm] <;> omega
  | override os => simp [warning?, Action.route?, Action.model?]

theorem isRedefinition_of_warning?_eq_some {w : Warning} (h : c.warning? a = some w) :
    w.isRedefinition := by
  cases a with
  | add d =>
    cases d with
    | route r =>
      obtain ⟨o, -, rfl⟩ := Option.map_eq_some_iff.1 h
      rfl
    | model m =>
      rw [warning?, addWarning?, Option.ite_none_right_eq_some] at h
      cases h.2
      rfl
  | override os => cases h

end Views

section Run

variable (h : History) (path : String)

theorem operation?_run (method : Method) : (run {} h).1.operation? path method =
    (h.routes.reverse.find? (·.slot = (path, method))).map (·.operation) := by
  induction h using List.reverseRecOn with
  | nil => rfl
  | append_singleton h a ih =>
    rw [run_concat, operation?_act, ih, History.routes_concat, find?_reverse_append_toList,
      Option.map_or]

theorem get?_schemas_run (name : String) : (run {} h).1.schemas.get? name =
    (h.models.reverse.find? (·.name = name)).map (·.schema) := by
  induction h using List.reverseRecOn with
  | nil => rfl
  | append_singleton h a ih =>
    rw [run_concat, get?_schemas_act, ih, History.models_concat, find?_reverse_append_toList,
      Option.map_or]

theorem keys_paths_run : (run {} h).1.paths.keys = (h.routes.map (·.path)).eraseDups := by
  induction h using List.reverseRecOn with
  | nil => rfl
  | append_singleton h a ih =>
    rw [run_concat, keys_paths_act, ih, History.routes_concat, List.map_append, ← Option.toList_map,
      eraseDups_append_toList]

theorem keys_schemas_run : (run {} h).1.schemas.keys = (h.models.map (·.name)).eraseDups := by
  induction h using List.reverseRecOn with
  | nil => rfl
  | append_singleton h a ih =>
    rw [run_concat, keys_schemas_act, ih, History.models_concat, List.map_append, ← Option.toList_map,
      eraseDups_append_toList]

theorem serversAt_run : (run {} h).1.serversAt path = (h.lastServer? path).map ([·]) := by
  induction h using List.reverseRecOn with
  | nil => rfl
  | append_singleton h a ih =>
    have hkeys : path ∈ (run {} h).1.paths.keys ↔ path ∈ (History.routes h).map (·.path) := by
      rw [keys_paths_run, List.mem_eraseDups]
    rw [run_concat, serversAt_act, ih, History.lastServer?_concat]
    by_cases hp : path ∈ (History.routes h).map (·.path)
    · rw [if_pos hp, if_pos (hkeys.2 hp), Option.map_or]
    · rw [if_neg hp, if_neg (mt hkeys.1 hp), Option.map_none]

theorem warning?_run (a : Action) : (run {} h).1.warning? a = h.redefinition? a := by
  cases a with
  | add d =>
    cases d with
    | route r =>
      rw [warning?, addWarning?, operation?_run, Option.map_map]
      rfl
    | model m =>
      have hkeys : m.name ∈ (run {} h).1.schemas.keys ↔ m.name ∈ (History.models h).map (·.name) := by
        rw [keys_schemas_run, List.mem_eraseDups]
      simp only [warning?, addWarning?, History.redefinition?, ← hkeys]
      simp [OrderedMap.contains]
  | override os => rfl

theorem warnings_run : (run {} h).2 = h.redefinitions := by
  induction h using List.reverseRecOn with
  | nil => rfl
  | append_singleton h a ih => rw [run_concat, History.redefinitions_concat, ih, warning?_run]

theorem isRedefinition_of_mem_run {w : Warning} (hw : w ∈ (run {} h).2) : w.isRedefinition := by
  induction h using List.reverseRecOn with
  | nil => exact absurd hw List.not_mem_nil
  | append_singleton h a ih =>
    rw [run_concat, List.mem_append, Option.mem_toList] at hw
    exact hw.elim ih (isRedefinition_of_warning?_eq_some _ a)

theorem length_warnings_run :
    (run {} h).2.length + (run {} h).1.slots.length + (run {} h).1.schemas.keys.length =
      h.routes.length + h.models.length := by
  induction h using List.reverseRecOn with
  | nil => rfl
  | append_singleton h a ih =>
    have hstep := length_warning?_act (run {} h).1 a
    simp only [run_concat, History.routes_concat, History.models_concat, List.length_append]
    omega

theorem exists_operation?_run (hpath : path ∈ (run {} h).1.paths.keys) :
    ∃ method o, (run {} h).1.operation? path method = some o := by
  rw [keys_paths_run, List.mem_eraseDups] at hpath
  obtain ⟨r, hr, rfl⟩ := List.mem_map.1 hpath
  have hfind : (h.routes.reverse.find? (·.slot = (r.path, r.method))).isSome :=
    List.find?_isSome.2 ⟨r, List.mem_reverse.2 hr, by simp [Route.slot]⟩
  obtain ⟨last, hlast⟩ := Option.isSome_iff_exists.1 hfind
  exact ⟨r.method, last.operation, by rw [operation?_run, hlast, Option.map_some]⟩

end Run

end Catalogue

/-- What a history leaves in a catalogue that was empty at first, with all warnings on the way. The last
route of a slot and the last model of a name stay, in the place of the first. -/
structure History.Leaves (h : History) (c : Catalogue) (warnings : List Warning) : Prop where
  operations : ∀ path method, c.operation? path method =
    (h.routes.reverse.find? (·.slot = (path, method))).map (·.operation)
  schemas : ∀ name, c.schemas.get? name = (h.models.reverse.find? (·.name = name)).map (·.schema)
  pathOrder : c.paths.keys.Nodup ∧ c.paths.keys = (h.routes.map (·.path)).eraseDups
  schemaOrder : c.schemas.keys.Nodup ∧ c.schemas.keys = (h.models.map (·.name)).eraseDups
  served : ∀ path ∈ c.paths.keys, ∃ method o, c.operation? path method = some o
  servers : ∀ path item, c.paths.get? path = some item →
    item.servers = (h.lastServer? path).map ([·])
  warned : warnings = h.redefinitions
  redefined : ∀ w ∈ warnings, w.isRedefinition
  warningCount : (warnings.countP (·.isRedefinition) : Int) =
    (h.routes.length - c.slots.length) + (h.models.length - c.schemas.keys.length)

/-- Every history leaves what it says, whatever the order of its actions. -/
theorem Catalogue.leaves_run (h : History) :
    h.Leaves (({} : Catalogue).run h).1 (({} : Catalogue).run h).2 where
  operations path method := operation?_run h path method
  schemas name := get?_schemas_run h name
  pathOrder := ⟨OrderedMap.nodup _, keys_paths_run h⟩
  schemaOrder := ⟨OrderedMap.nodup _, keys_schemas_run h⟩
  served path hpath := exists_operation?_run h path hpath
  servers path item hitem := by
    have hservers := serversAt_run h path
    rwa [serversAt, hitem] at hservers
  warned := warnings_run h
  redefined _ hw := isRedefinition_of_mem_run h hw
  warningCount := by
    have hlength := length_warnings_run h
    rw [List.countP_eq_length.2 fun _ hw => isRedefinition_of_mem_run h hw]
    omega

end AnnotatedApi
