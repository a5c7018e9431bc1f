import AnnotatedApi.Json.Reader

/-! How deep the containers of a value stand in each other, and what a reader with a limit makes of it: a
container past the limit has no value, and then the whole text has none. -/
namespace AnnotatedApi.Json

/-- What holds of a value whenever it holds of all its parts holds of every value. -/
@[elab_as_elim] theorem induction {motive : Json → Prop} (null : motive null)
    (bool : ∀ b, motive (bool b)) (num : ∀ n, motive (num n)) (str : ∀ s, motive (str s))
    (arr : ∀ xs, (∀ x ∈ xs, motive x) → motive (arr xs))
    (obj : ∀ ms, (∀ m ∈ ms, motive m.2) → motive (obj ms)) : (v : Json) → motive v
  | .null => null
  | .bool b => bool b
  | .num n => num n
  | .str s => str s
  | .arr xs => arr xs fun x _ => induction null bool num str arr obj x
  | .obj ms => obj ms fun m _ => induction null bool num str arr obj m.2
termination_by v => sizeOf v
decreasing_by
  · have := List.sizeOf_lt_of_mem ‹x ∈ xs›
    rw [Json.arr.sizeOf_spec]
    omega
  · have := List.sizeOf_lt_of_mem ‹m ∈ ms›
    obtain ⟨k, v⟩ := m
    rw [Prod.mk.sizeOf_spec] at this
    rw [Json.obj.sizeOf_spec]
    dsimp only
    omega

mutual

def depth : Json → Nat
  | arr xs => elementsDepth xs + 1
  | obj ms => membersDepth ms + 1
  | null | bool _ | num _ | str _ => 0

def elementsDepth : List Json → Nat
  | [] => 0
  | x :: xs => max (depth x) (elementsDepth xs)

def membersDepth : List (String × Json) → Nat
  | [] => 0
  | (_, v) :: ms => max (depth v) (membersDepth ms)

end

mutual

def IsExact : Json → Prop
  | num (.double _) => False
  | arr xs => ElementsExact xs
  | obj ms => MembersExact ms
  | null | bool _ | num (.word _) | str _ => True

def ElementsExact : List Json → Prop
  | [] => True
  | x :: xs => IsExact x ∧ ElementsExact xs

def MembersExact : List (String × Json) → Prop
  | [] => True
  | (_, v) :: ms => IsExact v ∧ MembersExact ms

end

mutual

def toNode : Json → Node
  | null => .null
  | bool b => .bool b
  | num n => .num n
  | str s => .str s
  | arr xs => .arr (elementNodes xs)
  | obj ms => .obj (memberNodes ms)

def elementNodes : List Json → List Node
  | [] => []
  | x :: xs => toNode x :: elementNodes xs

def memberNodes : List (String × Json) → List (String × Node)
  | [] => []
  | (k, v) :: ms => (k, toNode v) :: memberNodes ms

end

mutual

/-- What is read of a value where `depth` more containers may stand in each other. -/
def nodeWithin (depth : Nat) : Json → Node
  | null => .null
  | bool b => .bool b
  | num n => .num n
  | str s => .str s
  | arr xs => within depth (.arr (elementsWithin (depth - 1) xs))
  | obj ms => within depth (.obj (membersWithin (depth - 1) ms))

def elementsWithin (depth : Nat) : List Json → List Node
  | [] => []
  | x :: xs => nodeWithin depth x :: elementsWithin depth xs

def membersWithin (depth : Nat) : List (String × Json) → List (String × Node)
  | [] => []
  | (k, v) :: ms => (k, nodeWithin depth v) :: membersWithin depth ms

end

theorem elementNodes_eq_map (xs : List Json) : elementNodes xs = xs.map toNode := by
  induction xs with
  | nil => simp [elementNodes]
  | cons x xs ih => simp [elementNodes, ih]

theorem memberNodes_eq_map (ms : List (String × Json)) :
    memberNodes ms = ms.map fun m => (m.1, toNode m.2) := by
  induction ms with
  | nil => simp [memberNodes]
  | cons m ms ih => simp [memberNodes, ih]

theorem depth_le_elementsDepth {x : Json} {xs : List Json} (h : x ∈ xs) :
    x.depth ≤ elementsDepth xs := by
  induction xs with
  | nil => cases h
  | cons y ys ih =>
    simp only [elementsDepth]
    rcases List.mem_cons.1 h with rfl | h
    · omega
    · have := ih h
      omega

theorem depth_le_membersDepth {m : String × Json} {ms : List (String × Json)} (h : m ∈ ms) :
    m.2.depth ≤ membersDepth ms := by
  induction ms with
  | nil => cases h
  | cons n ms ih =>
    simp only [membersDepth]
    rcases List.mem_cons.1 h with rfl | h
    · omega
    · have := ih h
      omega

theorem elementsExact_iff {xs : List Json} : ElementsExact xs ↔ ∀ x ∈ xs, x.IsExact := by
  induction xs with
  | nil => simp [ElementsExact]
  | cons x xs ih => simp [ElementsExact, ih]

theorem membersExact_iff {ms : List (String × Json)} : MembersExact ms ↔ ∀ m ∈ ms, m.2.IsExact := by
  induction ms with
  | nil => simp [MembersExact]
  | cons m ms ih => simp [MembersExact, ih]

mutual

theorem nodeWithin_eq_toNode {n : Nat} : (v : Json) → v.depth ≤ n → nodeWithin n v = toNode v
  | null, _ | bool _, _ | num _, _ | str _, _ => by simp only [nodeWithin, toNode]
  | arr xs, h => by
    simp only [depth] at h
    have hn : n ≠ 0 := by omega
    simp only [nodeWithin, toNode, within, hn, if_false, elementsWithin_eq xs (n := n - 1) (by omega)]
  | obj ms, h => by
    simp only [depth] at h
    have hn : n ≠ 0 := by omega
    simp only [nodeWithin, toNode, within, hn, if_false, membersWithin_eq ms (n := n - 1) (by omega)]

theorem elementsWithin_eq {n : Nat} :
    (xs : List Json) → elementsDepth xs ≤ n → elementsWithin n xs = elementNodes xs
  | [], _ => by simp only [elementsWithin, elementNodes]
  | x :: xs, h => by
    simp only [elementsDepth] at h
    simp only [elementsWithin, elementNodes, nodeWithin_eq_toNode x (n := n) (by omega),
      elementsWithin_eq xs (n := n) (by omega)]

theorem membersWithin_eq {n : Nat} :
    (ms : List (String × Json)) → membersDepth ms ≤ n → membersWithin n ms = memberNodes ms
  | [], _ => by simp only [membersWithin, memberNodes]
  | (_, v) :: ms, h => by
    simp only [membersDepth] at h
    simp only [membersWithin, memberNodes, nodeWithin_eq_toNode v (n := n) (by omega),
      membersWithin_eq ms (n := n) (by omega)]

end

mutual

theorem value?_nodeWithin (n : Nat) : (v : Json) →
    (nodeWithin n v).value? = if v.depth ≤ n then some v else none
  | null | bool _ | num _ | str _ => by simp [nodeWithin, Node.value?, depth]
  | arr xs => by
    cases n with
    | zero => simp [nodeWithin, within, Node.value?, depth]
    | succ n =>
      simp only [nodeWithin, within, Nat.add_one_ne_zero, if_false, Node.value?, Nat.add_sub_cancel,
        elementValues?_elementsWithin n xs, depth, Nat.add_le_add_iff_right]
      split <;> rfl
  | obj ms => by
    cases n with
    | zero => simp [nodeWithin, within, Node.value?, depth]
    | succ n =>
      simp only [nodeWithin, within, Nat.add_one_ne_zero, if_false, Node.value?, Nat.add_sub_cancel,
        memberValues?_membersWithin n ms, depth, Nat.add_le_add_iff_right]
      split <;> rfl

theorem elementValues?_elementsWithin (n : Nat) : (xs : List Json) →
    Node.elementValues? (elementsWithin n xs) = if elementsDepth xs ≤ n then some xs else none
  | [] => by simp [elementsWithin, Node.elementValues?, elementsDepth]
  | x :: xs => by
    simp only [elementsWithin, Node.elementValues?, value?_nodeWithin n x,
      elementValues?_elementsWithin n xs, elementsDepth, Nat.max_le]
    by_cases hx : x.depth ≤ n <;> by_cases hxs : elementsDepth xs ≤ n <;> simp [hx, hxs]

theorem memberValues?_membersWithin (n : Nat) : (ms : List (String × Json)) →
    Node.memberValues? (membersWithin n ms) = if membersDepth ms ≤ n then some ms else none
  | [] => by simp [membersWithin, Node.memberValues?, membersDepth]
  | (_, v) :: ms => by
    simp only [membersWithin, Node.memberValues?, value?_nodeWithin n v,
      memberValues?_membersWithin n ms, membersDepth, Nat.max_le]
    by_cases hv : v.depth ≤ n <;> by_cases hms : membersDepth ms ≤ n <;> simp [hv, hms]

end

@[simp] theorem value?_toNode (v : Json) : (toNode v).value? = some v := by
  rw [← nodeWithin_eq_toNode v (Nat.le_refl _), value?_nodeWithin, if_pos (Nat.le_refl _)]

end AnnotatedApi.Json
