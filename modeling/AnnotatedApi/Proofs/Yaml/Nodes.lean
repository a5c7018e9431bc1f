import AnnotatedApi.Proofs.Yaml.ValueTokens
import AnnotatedApi.Yaml.Reader

/-! What is read of a value. Its tokens give a node, and as far as it is not nested too deeply that
node stands for the value. -/
namespace AnnotatedApi.Yaml

open Json

mutual

def toNode : Json → Node
  | null => .plain "null"
  | Json.bool b => .plain (if b then "true" else "false")
  | num n => .plain (n.toText Number.yamlLayout)
  | str s => scalarNode s
  | arr xs => .list (itemNodes xs)
  | obj ms => .map (memberNodes ms)

def itemNodes : List Json → List Node
  | [] => []
  | x :: xs => toNode x :: itemNodes xs

def memberNodes : List (String × Json) → List (Node × Node)
  | [] => []
  | (k, v) :: ms => (scalarNode k, toNode v) :: memberNodes ms

end

/-- The tokens of a value are read as its node. A list without tokens around it is ended
by what follows it. -/
structure Parses (v : Json) : Prop where
  block (inMap : Bool) {fuel : Nat} {rest : List Token} (h : 2 * (tokens false v).length + 2 ≤ fuel) :
    Token.node? fuel false inMap (tokens false v ++ rest) = some (toNode v, rest)
  behindKey {fuel : Nat} {rest : List Token} (h : 2 * (tokens true v).length + 2 ≤ fuel)
    (hrest : rest.head?.any Token.endsPart) :
    Token.node? fuel false true (tokens true v ++ rest) = some (toNode v, rest)

namespace Token

section

variable {fuel : Nat} {ts ts' ts'' rest : List Token} {x k v : Node} {xs : List Node}
  {es : List (Node × Node)}

private theorem items?_entry (hts : ts.head?.any endsItem = false)
    (hx : node? fuel false false ts = some (x, ts')) (hxs : items? fuel ts' = some (xs, rest)) :
    items? (fuel + 1) (entry :: ts) = some (x :: xs, rest) := by
  rw [items?, hts, hx]
  simp [hxs]

private theorem looseItems?_entry (hitem : ts.head?.any endsItem = false)
    (hpart : ts.head?.any endsPart = false) (hx : node? fuel false false ts = some (x, ts'))
    (hxs : looseItems? fuel ts' = some (xs, rest)) :
    looseItems? (fuel + 1) (entry :: ts) = some (x :: xs, rest) := by
  have hts : (ts.head?.any fun t => t.endsItem || t.endsPart) = false := by
    cases h : ts.head? <;> simp_all
  rw [looseItems?, hts, hx]
  simp [hxs]

private theorem looseItems?_end (hrest : rest.head?.any endsPart) :
    looseItems? (fuel + 1) rest = some ([], rest) := by
  obtain ⟨t, ht, hends⟩ := (Option.any_eq_true _ _).1 hrest
  obtain ⟨ts, rfl⟩ := List.head?_eq_some_iff.1 ht
  cases t <;> simp_all [looseItems?, endsPart]

private theorem part?_eq (hts : ts.head?.any endsPart = false) :
    part? (fuel + 1) ts = node? fuel false true ts := by
  rw [part?, hts]
  rfl

private theorem entries?_key (hk : part? fuel ts = some (k, value :: ts'))
    (hv : part? fuel ts' = some (v, ts'')) (hes : entries? fuel ts'' = some (es, rest)) :
    entries? (fuel + 1) (key :: ts) = some ((k, v) :: es, rest) := by
  rw [entries?, hk]
  simp [hv, hes]

end

variable {fuel : Nat} {rest : List Token}

theorem any_head?_tokens_endsItem (v : Json) : (tokens false v ++ rest).head?.any endsItem = false := by
  cases v with
  | arr xs => cases xs <;> rfl
  | obj ms => cases ms <;> rfl
  | _ => rfl

theorem any_head?_tokens_endsPart (behindKey : Bool) (v : Json) :
    (tokens behindKey v ++ rest).head?.any endsPart = false := by
  cases v with
  | arr xs => cases xs <;> cases behindKey <;> rfl
  | obj ms => cases ms <;> rfl
  | _ => rfl

theorem items?_itemTokens {xs : List Json} (h : ∀ x ∈ xs, Parses x)
    (hfuel : 2 * (itemTokens xs).length + 1 ≤ fuel) :
    items? fuel (itemTokens xs ++ blockEnd :: rest) = some (itemNodes xs, rest) := by
  obtain ⟨fuel, rfl⟩ := Nat.exists_eq_add_one_of_ne_zero (by omega : fuel ≠ 0)
  induction xs generalizing fuel with
  | nil => rfl
  | cons x xs ih =>
    obtain ⟨hx, hxs⟩ := List.forall_mem_cons.1 h
    simp only [itemTokens, List.cons_append, List.append_assoc, List.length_cons,
      List.length_append] at hfuel ⊢
    obtain ⟨fuel, rfl⟩ := Nat.exists_eq_add_one_of_ne_zero (by omega : fuel ≠ 0)
    exact items?_entry (any_head?_tokens_endsItem x) (hx.block false (by omega)) (ih hxs fuel (by omega))

theorem looseItems?_itemTokens {xs : List Json} (h : ∀ x ∈ xs, Parses x)
    (hfuel : 2 * (itemTokens xs).length + 1 ≤ fuel) (hrest : rest.head?.any endsPart) :
    looseItems? fuel (itemTokens xs ++ rest) = some (itemNodes xs, rest) := by
  obtain ⟨fuel, rfl⟩ := Nat.exists_eq_add_one_of_ne_zero (by omega : fuel ≠ 0)
  induction xs generalizing fuel with
  | nil => exact looseItems?_end hrest
  | cons x xs ih =>
    obtain ⟨hx, hxs⟩ := List.forall_mem_cons.1 h
    simp only [itemTokens, List.cons_append, List.append_assoc, List.length_cons,
      List.length_append] at hfuel ⊢
    obtain ⟨fuel, rfl⟩ := Nat.exists_eq_add_one_of_ne_zero (by omega : fuel ≠ 0)
    exact looseItems?_entry (any_head?_tokens_endsItem x) (any_head?_tokens_endsPart false x)
      (hx.block false (by omega)) (ih hxs fuel (by omega))

theorem entries?_memberTokens {ms : List (String × Json)} (h : ∀ m ∈ ms, Parses m.2)
    (hfuel : 2 * (memberTokens ms).length + 1 ≤ fuel) :
    entries? fuel (memberTokens ms ++ blockEnd :: rest) = some (memberNodes ms, rest) := by
  obtain ⟨fuel, rfl⟩ := Nat.exists_eq_add_one_of_ne_zero (by omega : fuel ≠ 0)
  induction ms generalizing fuel with
  | nil => rfl
  | cons m ms ih =>
    obtain ⟨k, v⟩ := m
    obtain ⟨hv, hms⟩ := List.forall_mem_cons.1 h
    simp only [memberTokens, List.cons_append, List.append_assoc, List.length_cons,
      List.length_append] at hfuel ⊢
    obtain ⟨fuel, rfl⟩ := Nat.exists_eq_add_of_le' (by omega : 2 ≤ fuel)
    -- A list at the column of its key ends where the next key or the end of the map comes.
    refine entries?_key (by rw [part?_eq rfl, node?]) ?_ (ih hms (fuel + 1) (by omega))
    rw [part?_eq (any_head?_tokens_endsPart _ v)]
    cases hk : isSimpleKey k with
    | true =>
      rw [hk] at hfuel
      exact hv.behindKey (by simp only; omega) (by cases ms <;> rfl)
    | false =>
      rw [hk] at hfuel
      exact hv.block true (by simp only; omega)

end Token

theorem parses_of_scalar {v : Json} (h : ∀ behindKey, tokens behindKey v = [.scalar (toNode v)]) :
    Parses v where
  block inMap {fuel rest} hfuel := by
    obtain ⟨fuel, rfl⟩ := Nat.exists_eq_add_one_of_ne_zero (by omega : fuel ≠ 0)
    rw [h, List.singleton_append, Token.node?]
  behindKey {fuel rest} hfuel _ := by
    obtain ⟨fuel, rfl⟩ := Nat.exists_eq_add_one_of_ne_zero (by omega : fuel ≠ 0)
    rw [h, List.singleton_append, Token.node?]

theorem parses_arr_nil : Parses (arr []) where
  block inMap {fuel rest} hfuel := by
    obtain ⟨fuel, rfl⟩ := Nat.exists_eq_add_of_le' (by omega : 2 ≤ fuel)
    rfl
  behindKey {fuel rest} hfuel _ := by
    obtain ⟨fuel, rfl⟩ := Nat.exists_eq_add_of_le' (by omega : 2 ≤ fuel)
    rfl

theorem parses_obj_nil : Parses (obj []) where
  block inMap {fuel rest} hfuel := by
    obtain ⟨fuel, rfl⟩ := Nat.exists_eq_add_of_le' (by omega : 2 ≤ fuel)
    rfl
  behindKey {fuel rest} hfuel _ := by
    obtain ⟨fuel, rfl⟩ := Nat.exists_eq_add_of_le' (by omega : 2 ≤ fuel)
    rfl

theorem parses_arr_cons {x : Json} {xs : List Json} (h : ∀ y ∈ x :: xs, Parses y) :
    Parses (arr (x :: xs)) where
  block inMap {fuel rest} hfuel := by
    obtain ⟨fuel, rfl⟩ := Nat.exists_eq_add_one_of_ne_zero (by omega : fuel ≠ 0)
    have htokens : tokens false (arr (x :: xs)) =
        .blockList :: (itemTokens (x :: xs) ++ [.blockEnd]) := by
      simp [tokens]
    simp only [htokens, List.length_cons, List.length_append] at hfuel
    rw [htokens, List.cons_append, List.append_assoc, List.singleton_append, Token.node?,
      Token.items?_itemTokens h (by omega)]
    rfl
  behindKey {fuel rest} hfuel hrest := by
    obtain ⟨fuel, rfl⟩ := Nat.exists_eq_add_one_of_ne_zero (by omega : fuel ≠ 0)
    have htokens : tokens true (arr (x :: xs)) = itemTokens (x :: xs) := by
      simp [tokens]
    rw [htokens] at hfuel ⊢
    have hitems := Token.looseItems?_itemTokens h (by omega : _ ≤ fuel) hrest
    rw [itemTokens, List.cons_append, List.cons_append] at hitems ⊢
    rw [Token.node?, hitems]
    rfl

theorem parses_obj_cons {m : String × Json} {ms : List (String × Json)} (h : ∀ n ∈ m :: ms, Parses n.2) :
    Parses (obj (m :: ms)) := by
  have htokens (behindKey : Bool) :
      tokens behindKey (obj (m :: ms)) = .blockMap :: (memberTokens (m :: ms) ++ [.blockEnd]) := by
    simp [tokens]
  have hnode (inMap : Bool) {fuel : Nat} {rest : List Token}
      (hfuel : 2 * (.blockMap :: (memberTokens (m :: ms) ++ [Token.blockEnd])).length + 2 ≤ fuel) :
      Token.node? fuel false inMap (.blockMap :: (memberTokens (m :: ms) ++ [.blockEnd]) ++ rest) =
        some (toNode (obj (m :: ms)), rest) := by
    obtain ⟨fuel, rfl⟩ := Nat.exists_eq_add_one_of_ne_zero (by omega : fuel ≠ 0)
    simp only [List.length_cons, List.length_append] at hfuel
    rw [List.cons_append, List.append_assoc, List.singleton_append, Token.node?,
      Token.entries?_memberTokens h (by omega)]
    rfl
  refine ⟨fun inMap {fuel rest} hfuel => ?_, fun {fuel rest} hfuel _ => ?_⟩
  · rw [htokens] at hfuel ⊢
    exact hnode inMap hfuel
  · rw [htokens] at hfuel ⊢
    exact hnode true hfuel

theorem parses (v : Json) : Parses v := by
  induction v using Json.induction with
  | arr xs ih =>
    cases xs with
    | nil => exact parses_arr_nil
    | cons x xs => exact parses_arr_cons ih
  | obj ms ih =>
    cases ms with
    | nil => exact parses_obj_nil
    | cons m ms => exact parses_obj_cons ih
  | _ => exact parses_of_scalar fun _ => by simp [tokens, toNode]

theorem document?_of_node? {ts : List Token} {x : Node}
    (h : Token.node? (2 * ts.length + 2) false false ts = some (x, [])) :
    Token.document? ts = some x := by
  cases ts with
  | nil => simp [Token.node?] at h
  | cons t ts =>
    cases t with
    | start => simp [Token.node?] at h
    | _ => simp only [Token.document?, h, List.all_nil, Option.bind_eq_bind, Option.bind_some, if_true]

theorem document?_tokens (v : Json) : Token.document? (tokens false v) = some (toNode v) := by
  apply document?_of_node?
  have hnode : Token.node? (2 * (tokens false v).length + 2) false false (tokens false v ++ []) =
      some (toNode v, []) :=
    (parses v).block false (Nat.le_refl _)
  rwa [List.append_nil] at hnode

@[simp] theorem scalar?_scalarNode (s : String) : (scalarNode s).scalar? = some s := by
  unfold scalarNode
  split <;> rfl

@[simp] theorem within_scalarNode (n : Nat) (s : String) : (scalarNode s).within n = scalarNode s := by
  unfold scalarNode
  split <;> cases n <;> rfl

@[simp] theorem value?_scalarNode (s : String) : (scalarNode s).value? = some (.str s) := by
  have hstyle := style_spec s
  unfold scalarNode
  split
  next h =>
    rw [h] at hstyle
    simp [Node.value?, hstyle.2, Plain.value?]
  · simp [Node.value?]

mutual

/-- The node of a value stands for it, as far as it is not nested too deeply. -/
theorem value?_within (n : Nat) : (v : Json) → v.IsExact →
    ((toNode v).within n).value? = if v.depth ≤ n then some v else none
  | null, _ => by simp [toNode, Node.within, Node.value?, depth, resolve, nullWords, Plain.value?]
  | Json.bool b, _ => by
    cases b <;> simp [toNode, Node.within, Node.value?, depth, resolve, nullWords, Plain.value?]
  | num (.word w), _ => by
    simp [toNode, Node.within, Node.value?, depth, resolve_toText, Plain.value?, Number.Word.ofInt?_val]
  | str s, _ => by simp [toNode, depth]
  | arr xs, h => by
    cases n with
    | zero => simp [toNode, Node.within, Node.value?, depth]
    | succ n =>
      simp only [toNode, Node.within, Node.value?, values?_allWithin n xs h, depth,
        Nat.add_le_add_iff_right]
      split <;> rfl
  | obj ms, h => by
    cases n with
    | zero => simp [toNode, Node.within, Node.value?, depth]
    | succ n =>
      simp only [toNode, Node.within, Node.value?, members?_entriesWithin n ms h, depth,
        Nat.add_le_add_iff_right]
      split <;> rfl

theorem values?_allWithin (n : Nat) : (xs : List Json) → ElementsExact xs →
    Node.values? (Node.allWithin n (itemNodes xs)) = if elementsDepth xs ≤ n then some xs else none
  | [], _ => by simp [itemNodes, Node.allWithin, Node.values?, elementsDepth]
  | x :: xs, h => by
    simp only [itemNodes, Node.allWithin, Node.values?, value?_within n x h.1,
      values?_allWithin n xs h.2, elementsDepth, Nat.max_le]
    by_cases hx : x.depth ≤ n <;> by_cases hxs : elementsDepth xs ≤ n <;> simp [hx, hxs]

theorem members?_entriesWithin (n : Nat) : (ms : List (String × Json)) → MembersExact ms →
    Node.members? (Node.entriesWithin n (memberNodes ms)) = if membersDepth ms ≤ n then some ms else none
  | [], _ => by simp [memberNodes, Node.entriesWithin, Node.members?, membersDepth]
  | (k, v) :: ms, h => by
    simp only [memberNodes, Node.entriesWithin, Node.members?, within_scalarNode, scalar?_scalarNode,
      value?_within n v h.1, members?_entriesWithin n ms h.2, membersDepth, Nat.max_le]
    by_cases hv : v.depth ≤ n <;> by_cases hms : membersDepth ms ≤ n <;> simp [hv, hms]

end

end AnnotatedApi.Yaml
