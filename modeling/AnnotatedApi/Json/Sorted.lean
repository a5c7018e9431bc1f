import AnnotatedApi.Json.Node
import AnnotatedApi.Source

/-! Objects of free content. Their members are kept in increasing order of names, at every depth, and
of members with one name the last one stays. -/
namespace AnnotatedApi.Json

/-- Puts a member in its place, unless its name is there. -/
def place (name : String) (v : Json) : List (String × Json) → List (String × Json)
  | [] => [(name, v)]
  | (n, w) :: rest =>
    if name < n then (name, v) :: (n, w) :: rest
    else if name = n then (n, w) :: rest
    else (n, w) :: place name v rest

mutual

/-- The value with the members of all its objects in order. -/
def sort : Json → Json
  | arr xs => arr (sortElements xs)
  | obj ms => obj (sortMembers ms)
  | null => null
  | bool b => bool b
  | num n => num n
  | str s => str s

def sortElements : List Json → List Json
  | [] => []
  | x :: xs => sort x :: sortElements xs

def sortMembers : List (String × Json) → List (String × Json)
  | [] => []
  | (name, v) :: rest => place name (sort v) (sortMembers rest)

end

mutual

def Sorted : Json → Prop
  | arr xs => SortedElements xs
  | obj ms => SortedMembers ms
  | _ => True

def SortedElements : List Json → Prop
  | [] => True
  | x :: xs => Sorted x ∧ SortedElements xs

def SortedMembers : List (String × Json) → Prop
  | [] => True
  | (name, v) :: rest => (∀ m ∈ rest, name < m.1) ∧ Sorted v ∧ SortedMembers rest

end

private theorem mem_place {name : String} {v : Json} {ms : List (String × Json)} {m : String × Json}
    (h : m ∈ place name v ms) : m.1 = name ∨ m ∈ ms := by
  induction ms with
  | nil => simp_all [place]
  | cons e rest ih =>
    simp only [place] at h
    split at h
    · rcases List.mem_cons.1 h with rfl | h
      · exact .inl rfl
      · exact .inr h
    · split at h
      · exact .inr h
      · rcases List.mem_cons.1 h with rfl | h
        · exact .inr List.mem_cons_self
        · exact (ih h).imp_right (List.mem_cons_of_mem _)

theorem sortedMembers_place {name : String} {v : Json} {ms : List (String × Json)}
    (hv : Sorted v) (h : SortedMembers ms) : SortedMembers (place name v ms) := by
  induction ms with
  | nil => exact ⟨by simp, hv, trivial⟩
  | cons e rest ih =>
    obtain ⟨n, w⟩ := e
    obtain ⟨hlt, hw, hrest⟩ := h
    simp only [place]
    split
    next hn =>
      refine ⟨fun m hm => ?_, hv, hlt, hw, hrest⟩
      rcases List.mem_cons.1 hm with rfl | hm
      · exact hn
      · exact String.lt_trans hn (hlt m hm)
    next hn =>
      split
      · exact ⟨hlt, hw, hrest⟩
      next hne =>
        refine ⟨fun m hm => ?_, hw, ih hrest⟩
        rcases mem_place hm with h | h
        · exact h ▸ Std.lt_of_le_of_ne (String.not_lt.1 hn) fun e => hne e.symm
        · exact hlt m h

mutual

theorem sorted_sort : (v : Json) → Sorted (sort v)
  | arr xs => by simp only [sort, Sorted]; exact sortedElements_sort xs
  | obj ms => by simp only [sort, Sorted]; exact sortedMembers_sort ms
  | null | bool _ | num _ | str _ => by simp only [sort, Sorted]

theorem sortedElements_sort : (xs : List Json) → SortedElements (sortElements xs)
  | [] => by simp only [sortElements, SortedElements]
  | x :: xs => by
    simp only [sortElements, SortedElements]
    exact ⟨sorted_sort x, sortedElements_sort xs⟩

theorem sortedMembers_sort : (ms : List (String × Json)) → SortedMembers (sortMembers ms)
  | [] => by simp only [sortMembers, SortedMembers]
  | (_, v) :: rest => by
    simp only [sortMembers]
    exact sortedMembers_place (sorted_sort v) (sortedMembers_sort rest)

end

end AnnotatedApi.Json

namespace AnnotatedApi

structure FreeObject where
  members : List (String × Json)
  sorted : Json.SortedMembers members

namespace FreeObject

def ofMembers (members : List (String × Json)) : FreeObject :=
  ⟨Json.sortMembers members, Json.sortedMembers_sort members⟩

def toJson (o : FreeObject) : Json := .obj o.members

def decode {σ : Type} [Source σ] (v : σ) : Option FreeObject := do
  let entries ← (← Source.entries? v).mapM fun (k, v) => (Source.value? v).map (k, ·)
  return ofMembers entries

def get? (o : FreeObject) (name : String) : Option Json :=
  (o.members.find? (·.1 = name)).map Prod.snd

end FreeObject

end AnnotatedApi
