import AnnotatedApi.Document.Schema
import AnnotatedApi.Proofs.Json.Nesting
import AnnotatedApi.Proofs.OrderedMap
import Mathlib.Data.List.Nodup

/-! The fields of a record that was written as an object. A field that is there is found under its name,
and one that is not there is missing, if the names differ. -/
namespace AnnotatedApi

open Json

section

variable {α : Type} {decode : Node → Option α} {toJson : α → Json}

/-- A value that is written decodes to itself, and does not stand for an absent one. -/
structure Restores (decode : Node → Option α) (toJson : α → Json) (a : α) : Prop where
  decode_toNode : decode (toNode (toJson a)) = some a
  not_null : toJson a ≠ .null

theorem Restores.optional?_eq {a : α} (h : Restores decode toJson a) :
    Source.optional? decode (toNode (toJson a)) = some (some a) := by
  have habsent : Source.isAbsent (toNode (toJson a)) = false := by
    cases hv : toJson a <;> first | exact absurd hv h.not_null | (rw [toNode]; rfl)
  simp [Source.optional?, habsent, h.decode_toNode]

theorem mapM_map_eq_some {β : Type} {f : α → β} {g : β → Option α} {xs : List α}
    (h : ∀ x ∈ xs, g (f x) = some x) : (xs.map f).mapM g = some xs := by
  induction xs with
  | nil => rfl
  | cons x xs ih =>
    obtain ⟨hx, hxs⟩ := List.forall_mem_cons.1 h
    simp [List.mapM_cons, hx, ih hxs]

theorem restores_list {xs : List α} (h : ∀ x ∈ xs, Restores decode toJson x) :
    Restores (Source.list? decode) (fun xs => .arr (xs.map toJson)) xs where
  decode_toNode := by
    have hnodes := mapM_map_eq_some (f := fun x => toNode (toJson x)) fun x hx => (h x hx).decode_toNode
    rw [toNode, elementNodes_eq_map, List.map_map]
    exact hnodes
  not_null := Json.noConfusion

theorem restores_text (s : String) : Restores Source.text? .str s where
  decode_toNode := by
    rw [toNode]
    rfl
  not_null := Json.noConfusion

theorem restores_texts (ss : List String) : Restores Source.texts? (fun ss => .arr (ss.map .str)) ss :=
  restores_list fun s _ => restores_text s

theorem restores_map {m : OrderedMap α} (h : ∀ e ∈ m.entries, Restores decode toJson e.2) :
    Restores (OrderedMap.decode decode) (·.toJson toJson) m where
  decode_toNode := by
    have hnodes : (m.entries.map fun e => (e.1, toNode (toJson e.2))).mapM
        (fun (k, v) => (decode v).map (k, ·)) = some m.entries :=
      mapM_map_eq_some fun e he => by simp [(h e he).decode_toNode]
    have hentries : Source.entries? (toNode (m.toJson toJson)) =
        some (m.entries.map fun e => (e.1, toNode (toJson e.2))) := by
      rw [OrderedMap.toJson, toNode, memberNodes_eq_map, List.map_map]
      rfl
    simp only [OrderedMap.decode, hentries, hnodes, Option.bind_eq_bind, Option.bind_some,
      Option.pure_def, OrderedMap.ofList_entries]
  not_null := Json.noConfusion

end

namespace Record

/-- The fields that `Json.ofMembers` writes. -/
def written (fields : List (String × Option Json)) : Record Node :=
  .named (memberNodes (fields.filterMap fun m => m.2.map (m.1, ·)))

variable {fields : List (String × Option Json)} {α : Type} {place : Nat} {name : String}

theorem record?_toNode_ofMembers (fields : List (String × Option Json)) :
    Source.record? (toNode (.ofMembers fields)) = some (written fields) := by
  rw [Json.ofMembers, toNode]
  rfl

theorem record?_toNode_obj (members : List (String × Json)) :
    Source.record? (toNode (.obj members)) =
      some (written (members.map fun m => (m.1, some m.2))) := by
  rw [← record?_toNode_ofMembers, Json.ofMembers, List.filterMap_map]
  simp

@[simp] theorem atMost_written (n : Nat) : (written fields).atMost n = some () := rfl

def fieldAt (name : String) : List (String × Option Json) → Option Json
  | [] => none
  | (k, o) :: fields => if k = name then o else fieldAt name fields

private theorem fieldAt_eq_none (h : name ∉ fields.map Prod.fst) : fieldAt name fields = none := by
  induction fields with
  | nil => rfl
  | cons m fields ih =>
    simp only [List.map_cons, List.mem_cons, not_or] at h
    simp [fieldAt, Ne.symm h.1, ih h.2]

private theorem filter_memberNodes (hn : (fields.map Prod.fst).Nodup) :
    (memberNodes (fields.filterMap fun m => m.2.map (m.1, ·))).filter (·.1 = name) =
      ((fieldAt name fields).map fun v => (name, toNode v)).toList := by
  induction fields with
  | nil => simp [memberNodes, fieldAt]
  | cons m fields ih =>
    obtain ⟨k, o⟩ := m
    obtain ⟨hk, hn'⟩ := List.nodup_cons.1 hn
    by_cases h : k = name
    · -- No later field has this name, so that nothing but the first one is left.
      subst h
      have hrest := ih hn'
      rw [fieldAt_eq_none hk] at hrest
      cases o <;> simpa [memberNodes, fieldAt] using hrest
    · cases o <;> simp [memberNodes, fieldAt, h, ih hn']

theorem field?_written (hn : (fields.map Prod.fst).Nodup) :
    (written fields).field? place name = some ((fieldAt name fields).map toNode) := by
  unfold written field?
  dsimp only
  rw [filter_memberNodes hn]
  cases fieldAt name fields <;> rfl

theorem required_written (hn : (fields.map Prod.fst).Nodup) (decode : Node → Option α) :
    (written fields).required place name decode = (fieldAt name fields).bind (decode <| toNode ·) := by
  cases h : fieldAt name fields <;> simp [required, field?_written hn, h]

def optionalAt (decode : Node → Option α) : Option Json → Option (Option α)
  | none => some none
  | some v => Source.optional? decode (toNode v)

theorem optionalAt_map {decode : Node → Option α} {toJson : α → Json} {o : Option α}
    (h : ∀ a ∈ o, Restores decode toJson a) : optionalAt decode (o.map toJson) = some o := by
  cases o with
  | none => rfl
  | some a => exact (h a rfl).optional?_eq

theorem orElse_written (hn : (fields.map Prod.fst).Nodup) (decode : Node → Option α) :
    (written fields).orElse place name none (Source.optional? decode) =
      optionalAt decode (fieldAt name fields) := by
  cases h : fieldAt name fields <;> simp [orElse, field?_written hn, h, optionalAt]

theorem optional_written (hn : (fields.map Prod.fst).Nodup) (decode : Node → Option α) :
    (written fields).optional place name decode = optionalAt decode (fieldAt name fields) :=
  orElse_written hn decode

end Record

end AnnotatedApi
