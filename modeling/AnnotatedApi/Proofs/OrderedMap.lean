import AnnotatedApi.OrderedMap
import Mathlib.Data.List.Forall2
import Mathlib.Data.List.Induction

/-! What an ordered map holds, seen through its look-ups. -/
namespace AnnotatedApi

variable {α : Type}

theorem Entries.mem_iff_lookup {entries : List (String × α)} (h : (keys entries).Nodup) {key : String}
    {value : α} : (key, value) ∈ entries ↔ lookup key entries = some value := by
  induction entries with
  | nil => simp [lookup]
  | cons e rest ih =>
    obtain ⟨k, v⟩ := e
    obtain ⟨hk, hrest⟩ := List.nodup_cons.1 h
    by_cases hkey : k = key
    · subst hkey
      have hnot : (k, value) ∉ rest := fun hm => hk (List.mem_map.2 ⟨_, hm, rfl⟩)
      simp [lookup, hnot, eq_comm]
    · simp [lookup, hkey, Ne.symm hkey, ih hrest]

theorem Entries.lookup_map {β : Type} (f : String → α → β) (key : String)
    (entries : List (String × α)) :
    lookup key (entries.map fun e => (e.1, f e.1 e.2)) = (lookup key entries).map (f key) := by
  induction entries with
  | nil => rfl
  | cons e rest ih =>
    by_cases h : e.1 = key
    · simp [lookup, h]
    · simp [lookup, h, ih]

theorem Entries.insert_of_not_mem {key : String} {entries : List (String × α)}
    (h : key ∉ keys entries) (value : α) : insert key value entries = entries ++ [(key, value)] := by
  induction entries with
  | nil => rfl
  | cons e rest ih =>
    simp only [keys, List.map_cons, List.mem_cons, not_or] at h
    simp [insert, Ne.symm h.1, ih h.2]

namespace OrderedMap

variable {m : OrderedMap α} {key : String} {value : α}

@[ext] theorem ext {m m' : OrderedMap α} (h : m.entries = m'.entries) : m = m' := by
  cases m
  cases m'
  simpa using h

theorem mem_entries_iff : (key, value) ∈ m.entries ↔ m.get? key = some value :=
  Entries.mem_iff_lookup m.nodup

theorem mem_values_iff : value ∈ m.values ↔ ∃ key, m.get? key = some value := by
  simp [values, ← mem_entries_iff]

theorem mem_keys_iff : key ∈ m.keys ↔ ∃ value, m.get? key = some value := by
  simp [keys, Entries.keys, ← mem_entries_iff]

@[simp] theorem get?_empty (key : String) : (empty : OrderedMap α).get? key = none := rfl

@[simp] theorem keys_empty : (empty : OrderedMap α).keys = [] := rfl

@[simp] theorem get?_mapValues {β : Type} (f : String → α → β) (m : OrderedMap α) (key : String) :
    (m.mapValues f).get? key = (m.get? key).map (f key) :=
  Entries.lookup_map f key m.entries

theorem mapValues_mapValues {β γ : Type} (f : String → α → β) (g : String → β → γ) (m : OrderedMap α) :
    (m.mapValues f).mapValues g = m.mapValues fun key value => g key (f key value) := by
  ext1
  simp [mapValues, Function.comp_def]

theorem mem_keys_insert_iff {key' : String} :
    key' ∈ (m.insert key value).keys ↔ key' = key ∨ key' ∈ m.keys := by
  simp only [mem_keys_iff, get?_insert]
  by_cases h : key = key'
  · simp [h]
  · simp [h, Ne.symm h]

/-- What a list of pairs leaves in a map was there, or is one of the pairs. -/
private theorem mem_of_get?_foldl {pairs : List (String × α)}
    (h : (pairs.foldl (fun m p => m.insert p.1 p.2) m).get? key = some value) :
    m.get? key = some value ∨ (key, value) ∈ pairs := by
  induction pairs generalizing m with
  | nil => exact .inl h
  | cons p pairs ih =>
    rcases ih h with h | h
    · rw [get?_insert] at h
      split at h
      next hk =>
        cases h
        cases hk
        exact .inr List.mem_cons_self
      next => exact .inl h
    · exact .inr (List.mem_cons_of_mem _ h)

private theorem mem_keys_foldl_iff {pairs : List (String × α)} :
    key ∈ (pairs.foldl (fun m p => m.insert p.1 p.2) m).keys ↔
      key ∈ m.keys ∨ key ∈ pairs.map Prod.fst := by
  induction pairs generalizing m with
  | nil => simp
  | cons p pairs ih =>
    rw [List.foldl_cons, ih, mem_keys_insert_iff, List.map_cons, List.mem_cons, or_comm (a := key = p.1),
      or_assoc]

private theorem entries_foldl_insert {pairs : List (String × α)}
    (h : (Entries.keys (m.entries ++ pairs)).Nodup) :
    (pairs.foldl (fun m p => m.insert p.1 p.2) m).entries = m.entries ++ pairs := by
  induction pairs generalizing m with
  | nil => simp
  | cons p pairs ih =>
    have hp : p.1 ∉ Entries.keys m.entries := by
      simp only [Entries.keys, List.map_append, List.map_cons, List.nodup_append, List.mem_cons] at h
      exact fun hm => h.2.2 p.1 hm p.1 (.inl rfl) rfl
    have hinsert : (m.insert p.1 p.2).entries = m.entries ++ [p] := Entries.insert_of_not_mem hp p.2
    rw [List.foldl_cons, ih (by simpa [hinsert] using h), hinsert, List.append_assoc]
    rfl

theorem ofList_entries (m : OrderedMap α) : ofList m.entries = m := by
  ext1
  exact entries_foldl_insert (m := empty) m.nodup

theorem mem_of_get?_ofList {pairs : List (String × α)} (h : (ofList pairs).get? key = some value) :
    (key, value) ∈ pairs :=
  (mem_of_get?_foldl h).resolve_left (by simp)

theorem mem_keys_ofList_iff {pairs : List (String × α)} :
    key ∈ (ofList pairs).keys ↔ key ∈ pairs.map Prod.fst := by
  unfold ofList
  rw [mem_keys_foldl_iff, keys_empty, or_iff_right List.not_mem_nil]

theorem ofList_concat (pairs : List (String × α)) (p : String × α) :
    ofList (pairs ++ [p]) = (ofList pairs).insert p.1 p.2 := by
  simp [ofList]

theorem keys_ofList (pairs : List (String × α)) :
    (ofList pairs).keys = (pairs.map Prod.fst).eraseDups := by
  induction pairs using List.reverseRecOn with
  | nil => rfl
  | append_singleton pairs p ih =>
    rw [ofList_concat, keys_insert, ih, List.map_append, List.eraseDups_append]
    by_cases hp : p.1 ∈ pairs.map Prod.fst <;> simp [hp, List.removeAll, List.eraseDups_cons]

theorem get?_ofList (pairs : List (String × α)) (key : String) :
    (ofList pairs).get? key = (pairs.reverse.find? (·.1 = key)).map Prod.snd := by
  induction pairs using List.reverseRecOn with
  | nil => rfl
  | append_singleton pairs p ih =>
    rw [ofList_concat, get?_insert, ih, List.reverse_append, List.reverse_singleton,
      List.singleton_append, List.find?_cons]
    by_cases hp : p.1 = key <;> simp [hp]

section Declarations

variable {β : Type} {R : β → α → Prop} {name : β → String} {xs : List β} {pairs : List (String × α)}

private theorem find?_of_forall₂ {γ : Type} {S : β → γ → Prop} {p : β → Bool} {q : γ → Bool}
    {ys : List γ} (h : List.Forall₂ S xs ys) (hpq : ∀ x y, S x y → p x = q y) {x : β}
    (hx : xs.find? p = some x) :
    ∃ y, ys.find? q = some y ∧ S x y := by
  induction h with
  | nil => cases hx
  | @cons a b as bs hab _ ih =>
    rw [List.find?_cons] at hx ⊢
    rw [hpq a b hab] at hx
    split at hx
    · cases hx
      exact ⟨b, rfl, hab⟩
    · exact ih hx

theorem keys_ofList_of_forall₂ (h : List.Forall₂ (fun x p => p.1 = name x ∧ R x p.2) xs pairs) :
    (ofList pairs).keys = (xs.map name).eraseDups := by
  have hnames : pairs.map Prod.fst = xs.map name := by
    induction h with
    | nil => rfl
    | cons hx _ ih => rw [List.map_cons, List.map_cons, hx.1, ih]
  rw [keys_ofList, hnames]

/-- A key that is declared several times has what the last declaration gives it. -/
theorem get?_ofList_of_forall₂ (h : List.Forall₂ (fun x p => p.1 = name x ∧ R x p.2) xs pairs)
    {key : String} {x : β} (hx : xs.reverse.find? (name · = key) = some x) :
    ∃ value, (ofList pairs).get? key = some value ∧ R x value := by
  have hkey : ∀ (x : β) (p : String × α), p.1 = name x ∧ R x p.2 →
      decide (name x = key) = decide (p.1 = key) := by
    rintro x p ⟨hp, -⟩
    rw [hp]
  obtain ⟨p, hp, hvalue⟩ := find?_of_forall₂ (List.forall₂_reverse_iff.2 h) hkey hx
  exact ⟨p.2, by rw [get?_ofList, hp]; rfl, hvalue.2⟩

end Declarations

end OrderedMap

end AnnotatedApi
