import AnnotatedApi.Proofs.Annotation.Defaults

/-! The braces around a type. Main statement: a text that begins with a brace is cut behind the shortest
beginning that has as many closing braces as opening ones. The same cut is found by a run that counts the
open braces, and on such a text the count never falls below zero. -/
namespace AnnotatedApi

open Text

namespace Text

def byteSize (cs : List Char) : Nat := (String.ofList cs).utf8ByteSize

@[simp] theorem byteSize_nil : byteSize [] = 0 := by
  simp [byteSize]

@[simp] theorem byteSize_append (cs ds : List Char) :
    byteSize (cs ++ ds) = byteSize cs + byteSize ds := by
  simp [byteSize]

@[simp] theorem byteSize_cons (c : Char) (cs : List Char) :
    byteSize (c :: cs) = c.utf8Size + byteSize cs := by
  rw [← List.singleton_append, byteSize_append]
  simp [byteSize]

/-- The part of a text from one place to another, both counted in bytes from its start. -/
def IsSlice (text : List Char) (start stop : Nat) (part : List Char) : Prop :=
  ∃ before after, text = before ++ part ++ after ∧ byteSize before = start ∧
    byteSize (before ++ part) = stop

end Text

namespace Tag

/-- How many braces are open behind a character; where none is open, a closing brace changes nothing. -/
def openBehind (depth : Nat) (c : Char) : Nat :=
  if c = '{' then depth + 1 else if c = '}' then depth - 1 else depth

theorem braced?_cons_of_closes {c : Char} {depth : Nat} (h : c = '}' ∧ depth = 0) (cs : List Char) :
    braced? depth (c :: cs) = some ([], cs) := by
  obtain ⟨rfl, rfl⟩ := h
  simp [braced?]

theorem braced?_cons {c : Char} {depth : Nat} (h : ¬(c = '}' ∧ depth = 0)) (cs : List Char) :
    braced? depth (c :: cs) =
      (braced? (openBehind depth c) cs).map fun (inner, rest) => (c :: inner, rest) := by
  by_cases hopen : c = '{'
  · simp [braced?, openBehind, hopen]
  · by_cases hclose : c = '}'
    · cases depth with
      | zero => exact absurd ⟨hclose, rfl⟩ h
      | succ depth => simp [braced?, openBehind, hclose]
    · simp [braced?, openBehind, hopen, hclose]

/-- A character is counted once: among the braces of the text or among those open behind it. -/
theorem count_cons_add_openBehind {c : Char} {depth : Nat} (h : ¬(c = '}' ∧ depth = 0)) (p : List Char) :
    (c :: p).count '{' + depth + p.count '}' =
      p.count '{' + openBehind depth c + (c :: p).count '}' := by
  unfold openBehind
  by_cases hopen : c = '{'
  · subst hopen
    simp
    omega
  · by_cases hclose : c = '}'
    · subst hclose
      simp at h ⊢
      omega
    · simp [hopen, hclose]

/-- With `depth` more opening braces in front, no closing brace lacks its partner. -/
def Covered (depth : Nat) (s : List Char) : Prop :=
  ∀ p, p <+: s → p.count '}' ≤ p.count '{' + depth

theorem covered_nil (depth : Nat) : Covered depth [] := by
  intro p hp
  simp [List.prefix_nil.1 hp]

theorem covered_cons {c : Char} {depth : Nat} (h : ¬(c = '}' ∧ depth = 0)) {s : List Char} :
    Covered depth (c :: s) ↔ Covered (openBehind depth c) s := by
  have hcount := count_cons_add_openBehind h
  constructor
  · intro hs p hp
    have := hs (c :: p) (List.cons_prefix_cons.2 ⟨rfl, hp⟩)
    have := hcount p
    omega
  · intro hs q hq
    rcases List.prefix_cons_iff.1 hq with rfl | ⟨p, rfl, hp⟩
    · simp
    · have := hs p hp
      have := hcount p
      omega

theorem braced?_eq_some_iff {depth : Nat} {cs inner rest : List Char} :
    braced? depth cs = some (inner, rest) ↔ cs = inner ++ '}' :: rest ∧
      inner.count '}' = inner.count '{' + depth ∧ Covered depth inner := by
  induction cs generalizing depth inner with
  | nil => simp [braced?]
  | cons c cs ih =>
    by_cases h : c = '}' ∧ depth = 0
    · obtain ⟨rfl, rfl⟩ := h
      rw [braced?_cons_of_closes ⟨rfl, rfl⟩]
      cases inner with
      | nil => simp [covered_nil]
      | cons d inner =>
        simp only [Option.some.injEq, Prod.mk.injEq, List.nil_eq, reduceCtorEq, false_and, false_iff]
        -- The text begins with a closing brace, and nothing covers it.
        rintro ⟨htext, -, hcovered⟩
        obtain ⟨rfl, -⟩ := List.cons.inj htext
        simpa using hcovered ['}'] (by simp)
    · rw [braced?_cons h]
      cases inner with
      | nil =>
        simp only [Option.map_eq_some_iff, Prod.mk.injEq, reduceCtorEq, false_and, and_false,
          exists_false, false_iff]
        rintro ⟨htext, hcount, -⟩
        obtain ⟨rfl, -⟩ := List.cons.inj htext
        exact h ⟨rfl, by simpa using hcount.symm⟩
      | cons d inner =>
        have hcons := count_cons_add_openBehind h inner
        constructor
        · intro hmap
          obtain ⟨⟨inner', rest'⟩, hfound, heq⟩ := Option.map_eq_some_iff.1 hmap
          cases heq
          obtain ⟨rfl, hcount, hcovered⟩ := ih.1 hfound
          exact ⟨rfl, by omega, (covered_cons h).2 hcovered⟩
        · rintro ⟨htext, hcount, hcovered⟩
          obtain ⟨rfl, rfl⟩ := List.cons.inj htext
          rw [ih.2 ⟨rfl, by omega, (covered_cons h).1 hcovered⟩]
          rfl

/-- Where no brace closes, there are never enough closing braces. -/
private theorem covered_of_braced?_eq_none {depth : Nat} {cs : List Char} (h : braced? depth cs = none) :
    Covered depth cs := by
  induction cs generalizing depth with
  | nil => exact covered_nil depth
  | cons c cs ih =>
    by_cases hc : c = '}' ∧ depth = 0
    · rw [braced?_cons_of_closes hc] at h
      cases h
    · rw [braced?_cons hc, Option.map_eq_none_iff] at h
      exact (covered_cons hc).2 (ih h)

/-- One character that the run comes to: the bytes before it, and the braces that are open there. -/
structure Visit where
  offset : Nat
  depth : Nat
  char : Char
deriving DecidableEq

namespace Visit

def Closes (v : Visit) : Prop := v.char = '}' ∧ openBehind v.depth v.char = 0

instance (v : Visit) : Decidable v.Closes := inferInstanceAs (Decidable (_ ∧ _))

end Visit

/-- The characters that the run comes to, up to the one where it ends. -/
def visits (offset depth : Nat) : List Char → List Visit
  | [] => []
  | c :: cs =>
    ⟨offset, depth, c⟩ ::
      if Visit.Closes ⟨offset, depth, c⟩ then []
      else visits (offset + c.utf8Size) (openBehind depth c) cs

theorem closes_succ_iff {offset depth : Nat} {c : Char} :
    Visit.Closes ⟨offset, depth + 1, c⟩ ↔ c = '}' ∧ depth = 0 := by
  simp only [Visit.Closes]
  refine and_congr_right ?_
  rintro rfl
  simp [openBehind]

private theorem openBehind_succ {c : Char} {depth : Nat} (h : ¬(c = '}' ∧ depth = 0)) :
    openBehind (depth + 1) c = openBehind depth c + 1 := by
  unfold openBehind
  split
  · rfl
  · split
    next hclose =>
      have : depth ≠ 0 := fun hzero => h ⟨hclose, hzero⟩
      omega
    next => rfl

theorem visits_succ_of_not_closes {offset depth : Nat} {c : Char} (h : ¬(c = '}' ∧ depth = 0))
    (cs : List Char) :
    visits offset (depth + 1) (c :: cs) =
      ⟨offset, depth + 1, c⟩ :: visits (offset + c.utf8Size) (openBehind depth c + 1) cs := by
  rw [visits, if_neg fun hcloses => h (closes_succ_iff.1 hcloses), openBehind_succ h]

theorem visits_succ_of_closes {offset depth : Nat} {c : Char} (h : c = '}' ∧ depth = 0)
    (cs : List Char) : visits offset (depth + 1) (c :: cs) = [⟨offset, depth + 1, c⟩] := by
  rw [visits, if_pos (closes_succ_iff.2 h)]

/-- Once a brace is open, one is open at every character that the run comes to. -/
theorem le_of_mem_visits {offset depth : Nat} {cs : List Char} {v : Visit}
    (hv : v ∈ visits offset (depth + 1) cs) : 1 ≤ v.depth ∧ offset ≤ v.offset := by
  induction cs generalizing offset depth with
  | nil => cases hv
  | cons c cs ih =>
    have hhead : 1 ≤ depth + 1 ∧ offset ≤ offset := ⟨Nat.le_add_left 1 depth, Nat.le_refl offset⟩
    by_cases h : c = '}' ∧ depth = 0
    · rw [visits_succ_of_closes h, List.mem_singleton] at hv
      subst hv
      exact hhead
    · rw [visits_succ_of_not_closes h, List.mem_cons] at hv
      rcases hv with rfl | hv
      · exact hhead
      · obtain ⟨hdepth, hoffset⟩ := ih hv
        exact ⟨hdepth, by omega⟩

/-- The run ends exactly where the cut is made. -/
theorem mem_visits_and_closes_iff {offset depth : Nat} {cs : List Char} {v : Visit} :
    v ∈ visits offset (depth + 1) cs ∧ v.Closes ↔
      ∃ inner rest, braced? depth cs = some (inner, rest) ∧ v = ⟨offset + byteSize inner, 1, '}'⟩ := by
  induction cs generalizing offset depth v with
  | nil => simp [visits, braced?]
  | cons c cs ih =>
    by_cases h : c = '}' ∧ depth = 0
    · obtain ⟨rfl, rfl⟩ := h
      rw [visits_succ_of_closes ⟨rfl, rfl⟩, braced?_cons_of_closes ⟨rfl, rfl⟩]
      constructor
      · rintro ⟨hv, -⟩
        exact ⟨[], cs, rfl, by simpa using hv⟩
      · rintro ⟨_, _, ⟨⟩, rfl⟩
        exact ⟨by simp, closes_succ_iff.2 ⟨rfl, rfl⟩⟩
    · rw [visits_succ_of_not_closes h, braced?_cons h]
      have hhead : ¬Visit.Closes ⟨offset, depth + 1, c⟩ := fun hcloses => h (closes_succ_iff.1 hcloses)
      constructor
      · rintro ⟨hv, hcloses⟩
        rcases List.mem_cons.1 hv with rfl | hv
        · exact absurd hcloses hhead
        · obtain ⟨inner, rest, hfound, rfl⟩ := ih.1 ⟨hv, hcloses⟩
          exact ⟨c :: inner, rest, by simp [hfound], by simp [Nat.add_assoc]⟩
      · rintro ⟨_, rest, hfound, rfl⟩
        obtain ⟨⟨inner, rest⟩, hfound, ⟨⟩⟩ := Option.map_eq_some_iff.1 hfound
        rw [byteSize_cons, ← Nat.add_assoc]
        obtain ⟨hv, hcloses⟩ := ih.2 ⟨inner, rest, hfound, rfl⟩
        exact ⟨List.mem_cons_of_mem _ hv, hcloses⟩

structure Evens (text p : List Char) : Prop where
  begins : p <+: text
  ne_nil : p ≠ []
  even : p.count '}' = p.count '{'

/-- A text that begins with a brace is evened out exactly if one closing brace more than opening ones
stands behind that brace. -/
theorem evens_cons_iff {inside p : List Char} :
    Evens ('{' :: inside) p ↔ ∃ q, p = '{' :: q ∧ q <+: inside ∧ q.count '}' = q.count '{' + 1 := by
  constructor
  · rintro ⟨hbegins, hne, heven⟩
    rcases List.prefix_cons_iff.1 hbegins with rfl | ⟨q, rfl, hq⟩
    · exact absurd rfl hne
    · exact ⟨q, rfl, hq, by simpa using heven⟩
  · rintro ⟨q, rfl, hq, hcount⟩
    exact ⟨List.cons_prefix_cons.2 ⟨rfl, hq⟩, List.cons_ne_nil _ _, by simpa using hcount⟩

theorem exists_braced?_iff {inside : List Char} :
    (∃ found, braced? 0 inside = some found) ↔ ∃ p, Evens ('{' :: inside) p := by
  constructor
  · rintro ⟨⟨inner, rest⟩, hfound⟩
    obtain ⟨rfl, hcount, -⟩ := braced?_eq_some_iff.1 hfound
    exact ⟨'{' :: (inner ++ ['}']),
      evens_cons_iff.2 ⟨inner ++ ['}'], rfl, by simp, by simpa using hcount⟩⟩
  · rintro ⟨p, hp⟩
    obtain ⟨q, rfl, hq, hcount⟩ := evens_cons_iff.1 hp
    cases hfound : braced? 0 inside with
    | some found => exact ⟨found, rfl⟩
    | none =>
      have := covered_of_braced?_eq_none hfound q hq
      omega

private theorem prefix_of_evens {inner rest p : List Char} (hcovered : Covered 0 inner)
    (hp : Evens ('{' :: (inner ++ '}' :: rest)) p) : '{' :: (inner ++ ['}']) <+: p := by
  obtain ⟨q, rfl, hq, hcount⟩ := evens_cons_iff.1 hp
  refine List.cons_prefix_cons.2 ⟨rfl, ?_⟩
  have hgroup : inner ++ ['}'] <+: inner ++ '}' :: rest := by simp
  rcases List.prefix_or_prefix_of_prefix hgroup hq with h | h
  · exact h
  · rcases List.prefix_concat_iff.1 h with rfl | h
    · exact List.prefix_refl _
    · have := hcovered q h
      omega

/-- A text that begins with a brace is cut exactly if some beginning of it is even. The cut comes behind
the shortest such beginning, and what stands between its braces is balanced. A run that counts open
braces from the start of the text always has one to close, and ends at the brace where the cut is made,
which is not the first character. -/
theorem braced?_cuts_group (inside : List Char) :
    ((∃ found, braced? 0 inside = some found) ↔ ∃ p, Evens ('{' :: inside) p) ∧
      (∀ inner rest, braced? 0 inside = some (inner, rest) →
        '{' :: inside = '{' :: inner ++ '}' :: rest ∧ Evens ('{' :: inside) ('{' :: inner ++ ['}']) ∧
          (∀ p, Evens ('{' :: inside) p → '{' :: inner ++ ['}'] <+: p) ∧ Balanced '{' '}' inner) ∧
      (∀ v ∈ visits 0 0 ('{' :: inside), v.char = '}' → 1 ≤ v.depth) ∧
      (∀ v ∈ visits 0 0 ('{' :: inside), v.Closes → 1 ≤ v.offset ∧
        ∃ inner rest, braced? 0 inside = some (inner, rest) ∧ IsSlice ('{' :: inside) 1 v.offset inner ∧
          IsSlice ('{' :: inside) (v.offset + 1) (byteSize ('{' :: inside)) rest) ∧
      ∀ found, braced? 0 inside = some found → ∃ v ∈ visits 0 0 ('{' :: inside), v.Closes := by
  have hvisits : visits 0 0 ('{' :: inside) = ⟨0, 0, '{'⟩ :: visits 1 1 inside := rfl
  have hopening : '{'.utf8Size = 1 := rfl
  have hclosing : '}'.utf8Size = 1 := rfl
  refine ⟨exists_braced?_iff, ?_, ?_, ?_, ?_⟩
  · intro inner rest hfound
    obtain ⟨rfl, hcount, hcovered⟩ := braced?_eq_some_iff.1 hfound
    refine ⟨rfl, ⟨by simp, by simp, by simpa using hcount⟩, fun p => prefix_of_evens hcovered, ?_⟩
    exact ⟨by simpa using hcount.symm, by simpa [Covered] using hcovered⟩
  · intro v hv hchar
    rcases List.mem_cons.1 (hvisits ▸ hv) with rfl | hv
    · simp at hchar
    · exact (le_of_mem_visits hv).1
  · intro v hv hcloses
    rcases List.mem_cons.1 (hvisits ▸ hv) with rfl | hv
    · simp [Visit.Closes] at hcloses
    · obtain ⟨inner, rest, hfound, rfl⟩ := mem_visits_and_closes_iff.1 ⟨hv, hcloses⟩
      obtain ⟨rfl, -, -⟩ := braced?_eq_some_iff.1 hfound
      refine ⟨Nat.le_add_right _ _, inner, rest, hfound, ?_, ?_⟩
      · exact ⟨['{'], '}' :: rest, by simp, by simp [hopening], by simp [hopening]⟩
      · refine ⟨'{' :: (inner ++ ['}']), [], by simp, ?_, by simp⟩
        simp only [byteSize_cons, byteSize_append, byteSize_nil, hopening, hclosing]
        omega
  · rintro ⟨inner, rest⟩ hfound
    obtain ⟨hv, hcloses⟩ := mem_visits_and_closes_iff.2 ⟨inner, rest, hfound, rfl⟩
    exact ⟨_, hvisits ▸ List.mem_cons_of_mem _ hv, hcloses⟩

/-- Without a brace in front, the run closes what was never opened. -/
example : visits 0 0 ['}'] = [⟨0, 0, '}'⟩] ∧ Visit.Closes ⟨0, 0, '}'⟩ := by decide

def groups : List Char := ['a', '{', 'é', '}', 'b', '}', '{', '}']

theorem braced?_cuts_group_nested :
    braced? 0 groups = some (['a', '{', 'é', '}', 'b'], ['{', '}']) ∧
      Balanced '{' '}' ['a', '{', 'é', '}', 'b'] ∧
      Evens ('{' :: groups) ('{' :: groups) ∧ ['{', 'a', '{', 'é', '}', 'b', '}'] <+: '{' :: groups ∧
      (⟨7, 1, '}'⟩ : Visit) ∈ visits 0 0 ('{' :: groups) ∧ Visit.Closes ⟨7, 1, '}'⟩ ∧
      IsSlice ('{' :: groups) 1 7 ['a', '{', 'é', '}', 'b'] ∧
      IsSlice ('{' :: groups) 8 10 ['{', '}'] := by
  have hfound : braced? 0 groups = some (['a', '{', 'é', '}', 'b'], ['{', '}']) := by decide
  have heven : Evens ('{' :: groups) ('{' :: groups) := ⟨List.prefix_refl _, by decide, by decide⟩
  have hcloses : Visit.Closes ⟨7, 1, '}'⟩ := by decide
  have hvisit : (⟨7, 1, '}'⟩ : Visit) ∈ visits 0 0 ('{' :: groups) := by decide
  obtain ⟨-, hcut, -, hslice, -⟩ := braced?_cuts_group groups
  obtain ⟨-, -, hshortest, hbalanced⟩ := hcut _ _ hfound
  obtain ⟨-, inner, rest, hparts, hinner, hrest⟩ := hslice _ hvisit hcloses
  cases hfound.symm.trans hparts
  exact ⟨hfound, hbalanced, heven, hshortest _ heven, hvisit, hcloses, hinner, hrest⟩

end Tag

end AnnotatedApi
