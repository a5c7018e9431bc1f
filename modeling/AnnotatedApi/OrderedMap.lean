/-! Maps from texts to values that keep their keys in order of first insertion. Main statements: what
an insertion does to the keys and to each look-up. -/
namespace AnnotatedApi

namespace Entries

variable {α : Type}

def keys (entries : List (String × α)) : List String := entries.map Prod.fst

/-- Gives `key` the value `value`: in place if it is there, at the end otherwise. -/
def insert (key : String) (value : α) : List (String × α) → List (String × α)
  | [] => [(key, value)]
  | (k, v) :: rest => if k = key then (k, value) :: rest else (k, v) :: insert key value rest

theorem keys_insert (key : String) (value : α) (entries : List (String × α)) :
    keys (insert key value entries) =
      if key ∈ keys entries then keys entries else keys entries ++ [key] := by
  induction entries with
  | nil => simp [insert, keys]
  | cons e rest ih =>
    obtain ⟨k, v⟩ := e
    by_cases h : k = key
    · simp [insert, keys, h]
    · have hk : key ≠ k := fun e => h e.symm
      simp only [insert, h, if_false, keys, List.map_cons, List.mem_cons, hk, false_or] at ih ⊢
      rw [ih]
      by_cases hm : key ∈ List.map Prod.fst rest <;> simp only [hm, if_true, if_false, List.cons_append]

theorem nodup_keys_insert (key : String) (value : α) {entries : List (String × α)}
    (h : (keys entries).Nodup) : (keys (insert key value entries)).Nodup := by
  rw [keys_insert]
  split
  · exact h
  next hk =>
    rw [List.nodup_append]
    refine ⟨h, by simp, ?_⟩
    intro a ha b hb e
    rw [List.mem_singleton.1 hb] at e
    exact hk (e ▸ ha)

def lookup (key : String) : List (String × α) → Option α
  | [] => none
  | (k, v) :: rest => if k = key then some v else lookup key rest

theorem lookup_insert (key key' : String) (value : α) (entries : List (String × α)) :
    lookup key' (insert key value entries) =
      if key = key' then some value else lookup key' entries := by
  induction entries with
  | nil => simp [insert, lookup]
  | cons e rest ih =>
    obtain ⟨k, v⟩ := e
    by_cases h : k = key
    · by_cases h' : key = key' <;> simp [insert, lookup, h, h']
    · by_cases h' : key = key'
      · subst h'
        simp [insert, lookup, h, ih]
      · simp only [insert, h, if_false, lookup, ih, h']

end Entries

/-- A map whose entries stand in order of first insertion. -/
structure OrderedMap (α : Type) where
  entries : List (String × α)
  nodup : (Entries.keys entries).Nodup
deriving DecidableEq

namespace OrderedMap

variable {α β : Type}

def empty : OrderedMap α := ⟨[], List.nodup_nil⟩

instance : Inhabited (OrderedMap α) := ⟨empty⟩

def keys (m : OrderedMap α) : List String := Entries.keys m.entries

def values (m : OrderedMap α) : List α := m.entries.map Prod.snd

def get? (m : OrderedMap α) (key : String) : Option α := Entries.lookup key m.entries

def contains (m : OrderedMap α) (key : String) : Bool := m.keys.contains key

def insert (m : OrderedMap α) (key : String) (value : α) : OrderedMap α :=
  ⟨Entries.insert key value m.entries, Entries.nodup_keys_insert key value m.nodup⟩

@[simp] theorem keys_insert (m : OrderedMap α) (key : String) (value : α) :
    (m.insert key value).keys = if key ∈ m.keys then m.keys else m.keys ++ [key] :=
  Entries.keys_insert key value m.entries

@[simp] theorem get?_insert (m : OrderedMap α) (key key' : String) (value : α) :
    (m.insert key value).get? key' = if key = key' then some value else m.get? key' :=
  Entries.lookup_insert key key' value m.entries

def ofList (pairs : List (String × α)) : OrderedMap α :=
  pairs.foldl (fun m p => m.insert p.1 p.2) empty

def mapValues (f : String → α → β) (m : OrderedMap α) : OrderedMap β :=
  ⟨m.entries.map fun e => (e.1, f e.1 e.2), by
    have h : Entries.keys (m.entries.map fun e => (e.1, f e.1 e.2)) = Entries.keys m.entries := by
      simp [Entries.keys, Function.comp_def]
    exact h ▸ m.nodup⟩

@[simp] theorem keys_mapValues (f : String → α → β) (m : OrderedMap α) :
    (m.mapValues f).keys = m.keys := by
  simp [keys, mapValues, Entries.keys, Function.comp_def]

end OrderedMap

end AnnotatedApi
