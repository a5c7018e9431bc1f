import AnnotatedApi.Document.Codec
import AnnotatedApi.Proofs.Json.Fields
import AnnotatedApi.Proofs.Json.Reading
import Mathlib.Data.Option.Basic

/-! Writing a document and reading it back. Each kind of record is restored from its object if its parts
are; only schemas, which nest in each other, need the limit. Main statement: a document without doubles
and within the limit is read back from its JSON text. -/
namespace AnnotatedApi

open Json Record

-- Free objects are in order, so that sorting their members changes nothing.

namespace Json

theorem place_of_forall_lt {k : String} {v : Json} {ms : List (String × Json)}
    (h : ∀ m ∈ ms, k < m.1) : place k v ms = (k, v) :: ms := by
  cases ms with
  | nil => rfl
  | cons m ms => simp [place, h m List.mem_cons_self]

mutual

theorem sort_eq_self : (v : Json) → Sorted v → sort v = v
  | null, _ | bool _, _ | num _, _ | str _, _ => by simp only [sort]
  | arr xs, h => by
    simp only [Sorted] at h
    simp only [sort, sortElements_eq_self xs h]
  | obj ms, h => by
    simp only [Sorted] at h
    simp only [sort, sortMembers_eq_self ms h]

theorem sortElements_eq_self : (xs : List Json) → SortedElements xs → sortElements xs = xs
  | [], _ => by simp only [sortElements]
  | x :: xs, h => by
    simp only [SortedElements] at h
    simp only [sortElements, sort_eq_self x h.1, sortElements_eq_self xs h.2]

theorem sortMembers_eq_self : (ms : List (String × Json)) → SortedMembers ms → sortMembers ms = ms
  | [], _ => by simp only [sortMembers]
  | (k, v) :: ms, h => by
    simp only [SortedMembers] at h
    simp only [sortMembers, sort_eq_self v h.2.1, sortMembers_eq_self ms h.2.2, place_of_forall_lt h.1]

end

end Json

theorem FreeObject.restores (o : FreeObject) : Restores decode toJson o where
  decode_toNode := by
    have hentries : Source.entries? (toNode o.toJson) =
        some (o.members.map fun m => (m.1, toNode m.2)) := by
      rw [toJson, toNode, memberNodes_eq_map]
      rfl
    have hnodes : (o.members.map fun m => (m.1, toNode m.2)).mapM
        (fun (k, v) => (Source.value? v).map (k, ·)) = some o.members :=
      mapM_map_eq_some fun m _ => by
        change (Node.value? _).map _ = _
        simp
    simp only [decode, hentries, hnodes, Option.bind_eq_bind, Option.bind_some, Option.pure_def,
      ofMembers, sortMembers_eq_self _ o.sorted]
  not_null := Json.noConfusion

theorem Server.restores (s : Server) : Restores decode toJson s where
  decode_toNode := by
    simp [decode, toJson, record?_toNode_ofMembers, required_written, orElse_written, fieldAt,
      optionalAt_map, restores_text, (restores_text _).decode_toNode]
  not_null := Json.noConfusion

theorem Info.restores (i : Info) : Restores decode toJson i where
  decode_toNode := by
    simp [decode, toJson, record?_toNode_ofMembers, required_written, optional_written, fieldAt,
      optionalAt_map, restores_text, (restores_text _).decode_toNode, FreeObject.restores]
  not_null := Json.noConfusion

-- Schemas nest in each other, and are decoded up to a limit.

namespace Json

variable {n : Nat}

private theorem depth_lt_of_mem_arr {xs : List Json} (h : (arr xs).depth ≤ n) : ∀ x ∈ xs, x.depth < n :=
  fun _ hx => (Nat.lt_succ_of_le (depth_le_elementsDepth hx)).trans_le h

theorem depth_lt_of_mem_obj {ms : List (String × Json)} (h : (obj ms).depth ≤ n) :
    ∀ m ∈ ms, m.2.depth < n :=
  fun _ hm => (Nat.lt_succ_of_le (depth_le_membersDepth hm)).trans_le h

theorem depth_lt_of_mem_ofMembers {fields : List (String × Option Json)}
    (h : (Json.ofMembers fields).depth ≤ n) : ∀ m ∈ fields, ∀ v ∈ m.2, v.depth < n := by
  intro m hm v hv
  exact depth_lt_of_mem_obj h (m.1, v) (List.mem_filterMap.2 ⟨m, hm, by simp [Option.mem_def.1 hv]⟩)

variable {α : Type} {toJson : α → Json}

theorem depth_lt_of_mem_map {xs : List α} (h : (arr (xs.map toJson)).depth ≤ n) :
    ∀ x ∈ xs, (toJson x).depth < n :=
  fun _ hx => depth_lt_of_mem_arr h _ (List.mem_map_of_mem hx)

theorem depth_lt_of_mem_entries {m : OrderedMap α} (h : (m.toJson toJson).depth ≤ n) :
    ∀ e ∈ m.entries, (toJson e.2).depth < n :=
  fun e he => depth_lt_of_mem_obj h (e.1, toJson e.2)
    (List.mem_map_of_mem (f := fun e => (e.1, toJson e.2)) he)

end Json

namespace Schema

private theorem listToJson_eq_map (ss : List Schema) : listToJson ss = ss.map toJson := by
  induction ss with
  | nil => simp [listToJson]
  | cons s ss ih => simp [listToJson, ih]

private theorem oneOfToJson_eq_map (o : Option (List Schema)) :
    oneOfToJson o = o.map fun ss => .arr (ss.map toJson) := by
  cases o <;> simp [oneOfToJson, listToJson_eq_map]

private theorem itemsToJson_eq_map (o : Option Schema) : itemsToJson o = o.map toJson := by
  cases o <;> simp [itemsToJson]

theorem restores_within {n : Nat} {s : Schema} (h : s.toJson.depth ≤ n) :
    Restores (decodeWithin n) toJson s := by
  induction n generalizing s with
  | zero =>
    obtain ⟨description, type, reference, oneOf, items⟩ := s
    simp [toJson, Json.ofMembers, depth] at h
  | succ n ih =>
    obtain ⟨description, type, reference, oneOf, items⟩ := s
    rw [toJson, oneOfToJson_eq_map, itemsToJson_eq_map] at h
    have hfields := depth_lt_of_mem_ofMembers h
    simp only [List.forall_mem_cons, Option.forall_mem_map] at hfields
    obtain ⟨-, -, -, hoptions, hitem, -⟩ := hfields
    have honeOf : ∀ ss ∈ oneOf,
        Restores (Source.list? (decodeWithin n)) (fun ss => .arr (ss.map toJson)) ss := by
      intro ss hss
      have hdepth := Nat.le_of_lt_succ (hoptions ss hss)
      exact restores_list fun s hs => ih (depth_lt_of_mem_map hdepth s hs).le
    have hitems : ∀ s ∈ items, Restores (decodeWithin n) toJson s := fun s hs =>
      ih (Nat.le_of_lt_succ (hitem s hs))
    constructor
    · simp [decodeWithin, toJson, oneOfToJson_eq_map, itemsToJson_eq_map, record?_toNode_ofMembers,
        optional_written, fieldAt, optionalAt_map, restores_text, optionalAt_map honeOf,
        optionalAt_map hitems]
    · rw [toJson]
      exact Json.noConfusion

theorem restores {s : Schema} (h : s.toJson.depth < nestingLimit) : Restores decode toJson s :=
  restores_within h.le

end Schema

theorem ObjectSchema.restores {s : ObjectSchema} (h : s.toJson.depth < nestingLimit) :
    Restores decode toJson s where
  decode_toNode := by
    have hfields := depth_lt_of_mem_obj h.le
    simp only [List.forall_mem_cons] at hfields
    obtain ⟨-, -, -, hdepth, -⟩ := hfields
    have hproperties := restores_map fun e he => Schema.restores (depth_lt_of_mem_entries hdepth.le e he)
    simp [decode, toJson, record?_toNode_obj, required_written, fieldAt,
      (restores_text _).decode_toNode, (restores_texts _).decode_toNode, hproperties.decode_toNode]
  not_null := Json.noConfusion

theorem Parameter.restores {p : Parameter} (h : p.toJson.depth < nestingLimit) :
    Restores decode toJson p where
  decode_toNode := by
    have hschema : Restores Schema.decode Schema.toJson p.schema :=
      Schema.restores (depth_lt_of_mem_obj h.le ("schema", _) (by simp))
    have hflag : Source.flag? (toNode (.bool p.required)) = some p.required := by
      rw [toNode]
      rfl
    simp [decode, toJson, record?_toNode_obj, required_written, fieldAt, hflag,
      (restores_text _).decode_toNode, hschema.decode_toNode]
  not_null := Json.noConfusion

namespace Content

theorem restores_media {s : Schema} (h : (mediaToJson s).depth < nestingLimit) :
    Restores decodeMedia mediaToJson s where
  decode_toNode := by
    have hschema : Restores Schema.decode Schema.toJson s :=
      Schema.restores (depth_lt_of_mem_obj h.le ("schema", _) (by simp))
    simp [decodeMedia, mediaToJson, record?_toNode_obj, required_written, fieldAt, hschema.decode_toNode]
  not_null := Json.noConfusion

theorem restores {c : Content} (h : c.toJson.depth < nestingLimit) : Restores decode toJson c where
  decode_toNode := by
    have hfields := depth_lt_of_mem_obj h.le
    simp only [List.forall_mem_cons] at hfields
    obtain ⟨-, hdepth, -⟩ := hfields
    have hcontent := restores_map fun e he => restores_media (depth_lt_of_mem_entries hdepth.le e he)
    simp [decode, toJson, record?_toNode_obj, required_written, fieldAt,
      (restores_text _).decode_toNode, hcontent.decode_toNode]
  not_null := Json.noConfusion

end Content

theorem Operation.restores {o : Operation} (h : o.toJson.depth < nestingLimit) :
    Restores decode toJson o where
  decode_toNode := by
    have hfields := depth_lt_of_mem_ofMembers h.le
    simp only [List.forall_mem_cons, Option.forall_mem_map] at hfields
    obtain ⟨-, -, -, hps, hbody, hresponses, -⟩ := hfields
    have hparameters : ∀ ps ∈ o.parameters,
        Restores (Source.list? Parameter.decode) (fun ps => .arr (ps.map (·.toJson))) ps := fun ps h =>
      restores_list fun p hp => Parameter.restores (depth_lt_of_mem_map (hps ps h).le p hp)
    have hbody : ∀ c ∈ o.requestBody, Restores Content.decode (·.toJson) c := fun c h =>
      Content.restores (hbody c h)
    have hresponses : ∀ m ∈ o.responses,
        Restores (OrderedMap.decode Content.decode) (·.toJson Content.toJson) m := fun m h =>
      restores_map fun e he => Content.restores (depth_lt_of_mem_entries (hresponses m h).le e he)
    simp [decode, toJson, record?_toNode_ofMembers, required_written, optional_written, fieldAt,
      optionalAt_map, restores_text, (restores_text _).decode_toNode, restores_texts,
      optionalAt_map hparameters, optionalAt_map hbody, optionalAt_map hresponses]
  not_null := Json.noConfusion

theorem PathItem.restores {item : PathItem} (h : item.toJson.depth < nestingLimit) :
    Restores decode toJson item where
  decode_toNode := by
    have hfields := depth_lt_of_mem_ofMembers h.le
    simp only [List.forall_mem_cons, Option.forall_mem_map] at hfields
    obtain ⟨hget, hput, hpost, hdelete, hoptions, hhead, hpatch, htrace, -⟩ := hfields
    have hoperation {o : Option Operation} (h : ∀ a ∈ o, a.toJson.depth < nestingLimit) :
        optionalAt Operation.decode (o.map (·.toJson)) = some o :=
      optionalAt_map fun a ha => Operation.restores (h a ha)
    have hservers (ss : List Server) :
        Restores (Source.list? Server.decode) (fun ss => .arr (ss.map (·.toJson))) ss :=
      restores_list fun s _ => s.restores
    simp [decode, toJson, record?_toNode_ofMembers, optional_written, fieldAt,
      optionalAt_map, hservers, hoperation hget, hoperation hput, hoperation hpost, hoperation hdelete,
      hoperation hoptions, hoperation hhead, hoperation hpatch, hoperation htrace]
  not_null := Json.noConfusion

namespace Document

theorem restores_components {schemas : OrderedMap ObjectSchema}
    (h : (componentsToJson schemas).depth < nestingLimit) :
    Restores decodeComponents componentsToJson schemas where
  decode_toNode := by
    have hfields := depth_lt_of_mem_obj h.le
    simp only [List.forall_mem_singleton] at hfields
    have hschemas :=
      restores_map fun e he => ObjectSchema.restores (depth_lt_of_mem_entries hfields.le e he)
    simp [decodeComponents, componentsToJson, record?_toNode_obj, required_written, fieldAt,
      hschemas.decode_toNode]
  not_null := Json.noConfusion

theorem restores {d : Document} (h : d.toJson.depth ≤ nestingLimit) : Restores decode toJson d where
  decode_toNode := by
    have hfields := depth_lt_of_mem_obj h
    simp only [List.forall_mem_cons] at hfields
    obtain ⟨-, -, -, hpaths, hcomponents, -⟩ := hfields
    have hservers :
        Restores (Source.list? Server.decode) (fun ss => .arr (ss.map (·.toJson))) d.servers :=
      restores_list fun s _ => s.restores
    have hpaths := restores_map fun e he => PathItem.restores (depth_lt_of_mem_entries hpaths.le e he)
    have hcomponents := restores_components hcomponents
    simp [decode, toJson, record?_toNode_obj, required_written, fieldAt,
      (restores_text _).decode_toNode, d.info.restores.decode_toNode, hservers.decode_toNode,
      hpaths.decode_toNode, hcomponents.decode_toNode]
  not_null := Json.noConfusion

end Document

-- Doubles can stand in the free objects of a document only.

namespace Json

@[simp] theorem isExact_str (s : String) : (str s).IsExact := trivial

@[simp] theorem isExact_bool (b : Bool) : (bool b).IsExact := trivial

@[simp] theorem isExact_arr {xs : List Json} : (arr xs).IsExact ↔ ∀ x ∈ xs, x.IsExact :=
  elementsExact_iff

@[simp] theorem isExact_obj {ms : List (String × Json)} : (obj ms).IsExact ↔ ∀ m ∈ ms, m.2.IsExact :=
  membersExact_iff

@[simp] theorem isExact_ofMembers {fields : List (String × Option Json)} :
    (Json.ofMembers fields).IsExact ↔ ∀ m ∈ fields, ∀ v ∈ m.2, v.IsExact := by
  simp only [Json.ofMembers, isExact_obj, List.forall_mem_filterMap]
  exact forall₂_congr fun m _ => Option.forall_mem_map

@[simp] theorem isExact_toJson {α : Type} {toJson : α → Json} {m : OrderedMap α} :
    (m.toJson toJson).IsExact ↔ ∀ e ∈ m.entries, (toJson e.2).IsExact := by
  simp only [OrderedMap.toJson, isExact_obj, List.forall_mem_map]

theorem membersExact_place {k : String} {v : Json} {ms : List (String × Json)} (hv : v.IsExact)
    (h : MembersExact ms) : MembersExact (place k v ms) := by
  induction ms with
  | nil => exact ⟨hv, trivial⟩
  | cons m ms ih =>
    rw [place]
    split
    · exact ⟨hv, h⟩
    split
    · exact h
    · exact ⟨h.1, ih h.2⟩

mutual

theorem isExact_sort : (v : Json) → v.IsExact → (sort v).IsExact
  | null, h | bool _, h | num _, h | str _, h => h
  | arr xs, h => elementsExact_sort xs h
  | obj ms, h => membersExact_sort ms h

theorem elementsExact_sort : (xs : List Json) → ElementsExact xs → ElementsExact (sortElements xs)
  | [], h => h
  | x :: xs, h => ⟨isExact_sort x h.1, elementsExact_sort xs h.2⟩

private theorem membersExact_sort : (ms : List (String × Json)) → MembersExact ms →
    MembersExact (sortMembers ms)
  | [], h => h
  | (_, v) :: ms, h => membersExact_place (isExact_sort v h.1) (membersExact_sort ms h.2)

end

end Json

theorem FreeObject.isExact_ofMembers {ms : List (String × Json)} (h : MembersExact ms) :
    (FreeObject.ofMembers ms).toJson.IsExact :=
  membersExact_sort ms h

mutual

theorem Schema.isExact_toJson : (s : Schema) → s.toJson.IsExact
  | ⟨description, type, reference, oneOf, items⟩ => by
    have honeOf := isExact_of_mem_oneOfToJson oneOf
    have hitems := isExact_of_mem_itemsToJson items
    simp only [toJson, isExact_ofMembers, List.forall_mem_cons, Option.forall_mem_map]
    simpa using ⟨honeOf, hitems⟩

theorem Schema.isExact_of_mem_oneOfToJson : (o : Option (List Schema)) → ∀ v ∈ oneOfToJson o, v.IsExact
  | none => by simp [oneOfToJson]
  | some ss => by simpa [oneOfToJson] using isExact_of_mem_listToJson ss

theorem Schema.isExact_of_mem_itemsToJson : (o : Option Schema) → ∀ v ∈ itemsToJson o, v.IsExact
  | none => by simp [itemsToJson]
  | some s => by simpa [itemsToJson] using isExact_toJson s

theorem Schema.isExact_of_mem_listToJson : (ss : List Schema) → ∀ v ∈ listToJson ss, v.IsExact
  | [] => by simp [listToJson]
  | s :: ss => by simpa [listToJson] using ⟨isExact_toJson s, isExact_of_mem_listToJson ss⟩

end

theorem Parameter.isExact_toJson (p : Parameter) : p.toJson.IsExact := by
  simp [toJson, p.schema.isExact_toJson]

theorem Content.isExact_toJson (c : Content) : c.toJson.IsExact := by
  simp [toJson, mediaToJson, Schema.isExact_toJson]

theorem Operation.isExact_toJson (o : Operation) : o.toJson.IsExact := by
  simp only [toJson, isExact_ofMembers, List.forall_mem_cons, Option.forall_mem_map]
  simp [Parameter.isExact_toJson, Content.isExact_toJson]

theorem Server.isExact_toJson (s : Server) : s.toJson.IsExact := by
  simp only [toJson, isExact_ofMembers, List.forall_mem_cons, Option.forall_mem_map]
  simp

theorem PathItem.isExact_toJson (item : PathItem) : item.toJson.IsExact := by
  simp only [toJson, isExact_ofMembers, List.forall_mem_cons, Option.forall_mem_map]
  simp [Operation.isExact_toJson, Server.isExact_toJson]

theorem ObjectSchema.isExact_toJson (s : ObjectSchema) : s.toJson.IsExact := by
  simp [toJson, Schema.isExact_toJson]

structure Info.HasNoDoubles (i : Info) : Prop where
  contact : ∀ o ∈ i.contact, o.toJson.IsExact
  license : ∀ o ∈ i.license, o.toJson.IsExact

theorem Info.HasNoDoubles.isExact_toJson {i : Info} (h : i.HasNoDoubles) : i.toJson.IsExact := by
  simp only [toJson, isExact_ofMembers, List.forall_mem_cons, Option.forall_mem_map]
  simpa using ⟨h.contact, h.license⟩

namespace Document

theorem isExact_toJson {d : Document} (h : d.info.HasNoDoubles) : d.toJson.IsExact := by
  simp [toJson, componentsToJson, h.isExact_toJson, Server.isExact_toJson, PathItem.isExact_toJson,
    ObjectSchema.isExact_toJson]

/-- A document that is nested within the limit is read back from its JSON text. -/
theorem ofJsonText?_toJsonText {d : Document} (hd : d.info.HasNoDoubles)
    (hdepth : d.toJson.depth ≤ nestingLimit) : ofJsonText? d.toJsonText = some d := by
  have hread : read? d.toJsonText = some (nodeWithin nestingLimit d.toJson) :=
    read?_render isBlank_pretty (isExact_toJson hd)
  rw [ofJsonText?, hread, nodeWithin_eq_toNode _ hdepth]
  exact (restores hdepth).decode_toNode

/-- A document with texts that need escapes, empty lists and maps, and keys out of order. -/
def queue : Document where
  openapi := "3.0.0"
  info := {
    title := "Jobs \"λ\""
    version := "1.0"
    description := "one\n\ttwo\\ \x01"
    contact := some (.ofMembers [("url", .null),
      ("lines", .arr [.num (.word ⟨-7, by decide⟩), .arr [], .obj []])]) }
  servers := []
  paths := .ofList [
    ("/jobs", { post := some {
      operationId := "add"
      tags := some []
      parameters := some [⟨true, "", "query", "first", { oneOf := some [.ofType "string", {}] }⟩]
      responses := some (.ofList [("404", .json "" {}), ("200", .json "" (.ofReference "Job"))]) } }),
    ("/", {})]
  schemas := .ofList [("Job", { properties := .ofList [("b", { items := some {} }), ("a", {})] })]

theorem ofJsonText?_toJsonText_queue :
    queue.info.HasNoDoubles ∧ queue.toJson.depth ≤ nestingLimit ∧
      ofJsonText? queue.toJsonText = some queue := by
  have hd : queue.info.HasNoDoubles := by
    refine ⟨?_, by simp [queue]⟩
    rintro _ ⟨⟩
    exact FreeObject.isExact_ofMembers ⟨trivial, ⟨trivial, trivial, trivial, trivial⟩, trivial⟩
  have hdepth : queue.toJson.depth ≤ nestingLimit := by
    decide
  exact ⟨hd, hdepth, ofJsonText?_toJsonText hd hdepth⟩

end Document

end AnnotatedApi
