import Mathlib.Data.List.Basic
import Mathlib.Data.List.TakeWhile

/-! The parts of a text between signs: what stands before and behind the first of them, and all parts when
the text is cut at one sign, at a class of signs, or at two signs one after the other. -/
namespace AnnotatedApi.Text

/-- What stands before the first `c`, or all of a text without it. -/
def upTo (c : Char) (s : List Char) : List Char := s.takeWhile (· ≠ c)

/-- What stands behind the first `c`. -/
def behind (c : Char) (s : List Char) : List Char := (s.dropWhile (· ≠ c)).tail

def upToSecond (c : Char) (s : List Char) : List Char := upTo c s ++ c :: upTo c (behind c s)

section Sign

variable {c : Char} {s s' : List Char}

theorem forall_ne_of_not_mem (h : c ∉ s) : ∀ d ∈ s, decide (d ≠ c) = true := by
  intro d hd
  exact decide_eq_true fun he => h (he ▸ hd)

theorem not_mem_upTo (c : Char) (s : List Char) : c ∉ upTo c s := by
  intro h
  simpa using List.mem_takeWhile_imp h

theorem upTo_append (h : c ∉ s) (rest : List Char) : upTo c (s ++ rest) = s ++ upTo c rest :=
  List.takeWhile_append_of_pos (forall_ne_of_not_mem h)

theorem behind_append (h : c ∉ s) (rest : List Char) : behind c (s ++ rest) = behind c rest := by
  rw [behind, List.dropWhile_append_of_pos (forall_ne_of_not_mem h)]
  rfl

@[simp] theorem upTo_cons_self (c : Char) (rest : List Char) : upTo c (c :: rest) = [] := by
  simp [upTo]

@[simp] theorem behind_cons_self (c : Char) (rest : List Char) : behind c (c :: rest) = rest := by
  simp [behind]

theorem upTo_cons_of_ne {d : Char} (h : d ≠ c) (rest : List Char) :
    upTo c (d :: rest) = d :: upTo c rest := by
  simp [upTo, h]

theorem behind_cons_of_ne {d : Char} (h : d ≠ c) (rest : List Char) :
    behind c (d :: rest) = behind c rest := by
  simp [behind, h]

theorem upTo_append_cons (h : c ∉ s) (rest : List Char) : upTo c (s ++ c :: rest) = s := by
  rw [upTo_append h, upTo_cons_self, List.append_nil]

theorem behind_append_cons (h : c ∉ s) (rest : List Char) : behind c (s ++ c :: rest) = rest := by
  rw [behind_append h, behind_cons_self]

/-- The last `c` of a text divides it in one way. -/
theorem append_cons_inj_of_not_mem {t t' : List Char} (h : c ∉ s) (h' : c ∉ s')
    (heq : t ++ c :: s = t' ++ c :: s') : t = t' ∧ s = s' := by
  have hreverse : s.reverse ++ c :: t.reverse = s'.reverse ++ c :: t'.reverse := by
    simpa using congrArg List.reverse heq
  have hs := congrArg (upTo c) hreverse
  have ht := congrArg (behind c) hreverse
  rw [upTo_append_cons (by simpa using h), upTo_append_cons (by simpa using h')] at hs
  rw [behind_append_cons (by simpa using h), behind_append_cons (by simpa using h')] at ht
  exact ⟨List.reverse_injective ht, List.reverse_injective hs⟩

theorem upTo_eq_self (h : c ∉ s) : upTo c s = s :=
  List.takeWhile_eq_self_iff.2 (forall_ne_of_not_mem h)

private theorem behind_eq_nil (h : c ∉ s) : behind c s = [] := by
  rw [behind, List.dropWhile_eq_nil_iff.2 (forall_ne_of_not_mem h), List.tail_nil]

theorem eq_upTo_append_behind (h : c ∈ s) : s = upTo c s ++ c :: behind c s := by
  obtain ⟨l, rest, rfl, hl⟩ := List.eq_append_cons_of_mem h
  rw [upTo_append_cons hl, behind_append_cons hl]

theorem behind_append_of_mem (h : c ∈ s) (rest : List Char) :
    behind c (s ++ rest) = behind c s ++ rest := by
  obtain ⟨l, s', rfl, hl⟩ := List.eq_append_cons_of_mem h
  rw [List.append_assoc, List.cons_append, behind_append_cons hl, behind_append_cons hl]

private theorem splitOn_eq_cons (c : Char) (s : List Char) :
    s.splitOn c = upTo c s :: if c ∈ s then (behind c s).splitOn c else [] := by
  by_cases h : c ∈ s
  · rw [if_pos h]
    obtain ⟨l, rest, rfl, hl⟩ := List.eq_append_cons_of_mem h
    rw [List.splitOn_append_cons_self_of_not_mem hl, upTo_append_cons hl, behind_append_cons hl]
  · rw [if_neg h, List.splitOn_eq_singleton h, upTo_eq_self h]

theorem first_two_parts {f : List Char → String} (hf : f [] = "") (c : Char) (s : List Char) :
    ((s.splitOn c).map f).getD 0 "" = f (upTo c s) ∧
      ((s.splitOn c).map f).getD 1 "" = f (upTo c (behind c s)) := by
  rw [splitOn_eq_cons]
  by_cases h : c ∈ s
  · rw [splitOn_eq_cons c (behind c s)]
    simp [h]
  · simp [h, behind_eq_nil h, upTo, hf]

/-- What is not kept starts with `c`. -/
theorem exists_eq_upTo_append (c : Char) (s : List Char) :
    ∃ lost, s = upTo c s ++ lost ∧ (lost = [] ∨ lost.head? = some c) := by
  by_cases h : c ∈ s
  · exact ⟨c :: behind c s, eq_upTo_append_behind h, .inr rfl⟩
  · exact ⟨[], by rw [upTo_eq_self h, List.append_nil], .inl rfl⟩

theorem exists_eq_upToSecond_append (h : c ∈ s) :
    ∃ lost, s = upToSecond c s ++ lost ∧ (lost = [] ∨ lost.head? = some c) := by
  obtain ⟨lost, hbehind, hlost⟩ := exists_eq_upTo_append c (behind c s)
  refine ⟨lost, ?_, hlost⟩
  calc s = upTo c s ++ c :: behind c s := eq_upTo_append_behind h
    _ = upTo c s ++ c :: (upTo c (behind c s) ++ lost) := by rw [← hbehind]
    _ = upToSecond c s ++ lost := by rw [upToSecond, List.append_assoc, List.cons_append]

theorem upToSecond_eq_self_iff (h : c ∈ s) : upToSecond c s = s ↔ s.count c = 1 := by
  obtain ⟨l, rest, rfl, hl⟩ := List.eq_append_cons_of_mem h
  rw [upToSecond, upTo_append_cons hl, behind_append_cons hl, List.append_cancel_left_eq,
    List.cons.injEq, List.count_append, List.count_cons_self, List.count_eq_zero.2 hl, Nat.zero_add,
    Nat.add_eq_right, List.count_eq_zero]
  constructor
  · rintro ⟨-, hrest⟩
    rw [← hrest]
    exact not_mem_upTo c rest
  · exact fun hrest => ⟨rfl, upTo_eq_self hrest⟩

theorem upToSecond_eq_iff : upToSecond c s = upToSecond c s' ↔
    upTo c s = upTo c s' ∧ upTo c (behind c s) = upTo c (behind c s') := by
  constructor
  · intro h
    have hfirst := congrArg (upTo c) h
    have hsecond := congrArg (behind c) h
    unfold upToSecond at hfirst hsecond
    rw [upTo_append_cons (not_mem_upTo c s), upTo_append_cons (not_mem_upTo c s')] at hfirst
    rw [behind_append_cons (not_mem_upTo c s), behind_append_cons (not_mem_upTo c s')] at hsecond
    exact ⟨hfirst, hsecond⟩
  · rintro ⟨hfirst, hsecond⟩
    rw [upToSecond, upToSecond, hfirst, hsecond]

end Sign

section Class

variable {p : Char → Bool} {s part : List Char} {parts : List (List Char)}

/-- The first part of a text ends with the text, or with a separator. -/
theorem splitOnP_eq_cons_iff : s.splitOnP p = part :: parts ↔
    (∀ c ∈ part, p c = false) ∧
      (s = part ∧ parts = [] ∨ ∃ c rest, p c ∧ s = part ++ c :: rest ∧ rest.splitOnP p = parts) := by
  constructor
  · intro h
    induction s generalizing part with
    | nil =>
      cases h
      exact ⟨by simp, .inl ⟨rfl, rfl⟩⟩
    | cons c s ih =>
      rw [List.splitOnP_cons_eq_if_modifyHead] at h
      split at h
      next hc =>
        cases h
        exact ⟨by simp, .inr ⟨c, s, hc, rfl, rfl⟩⟩
      next hc =>
        obtain ⟨first, others, hs⟩ := List.exists_cons_of_ne_nil (List.splitOnP_ne_nil p s)
        rw [hs] at h
        cases h
        obtain ⟨hfirst, hrest⟩ := ih hs
        refine ⟨List.forall_mem_cons.2 ⟨eq_false_of_ne_true hc, hfirst⟩, ?_⟩
        rcases hrest with ⟨rfl, rfl⟩ | ⟨d, rest, hd, rfl, rfl⟩
        · exact .inl ⟨rfl, rfl⟩
        · exact .inr ⟨d, rest, hd, rfl, rfl⟩
  · rintro ⟨hpart, ⟨rfl, rfl⟩ | ⟨c, rest, hc, rfl, rfl⟩⟩
    · exact List.splitOnP_eq_singleton hpart
    · exact List.splitOnP_append_cons_of_forall_mem hpart c hc rest

theorem length_splitOnP (p : Char → Bool) (s : List Char) :
    (s.splitOnP p).length = 1 + s.countP p := by
  induction s with
  | nil => rfl
  | cons c s ih =>
    rw [List.splitOnP_cons_eq_if_modifyHead, List.countP_cons]
    by_cases hc : p c
    · rw [if_pos hc, if_pos hc, List.length_cons, ih, Nat.add_assoc]
    · rw [if_neg hc, if_neg hc, List.length_modifyHead, ih, Nat.add_zero]

private theorem flatMap_modifyHead_splitOn {c d : Char} (h : parts ≠ []) :
    (parts.modifyHead (c :: ·)).flatMap (·.splitOn d) =
      if c == d then [] :: parts.flatMap (·.splitOn d)
      else (parts.flatMap (·.splitOn d)).modifyHead (c :: ·) := by
  obtain ⟨part, parts, rfl⟩ := List.exists_cons_of_ne_nil h
  obtain ⟨first, others, hpart⟩ := List.exists_cons_of_ne_nil (List.splitOn_ne_nil d part)
  simp only [List.modifyHead_cons, List.flatMap_cons, List.splitOn_cons_eq_if_modifyHead]
  split
  next => rfl
  next => simp [hpart]

/-- To cut at one sign, and each part at another one, is to cut at both of them at once. -/
theorem flatMap_splitOn_splitOn (c d : Char) (s : List Char) :
    (s.splitOn c).flatMap (·.splitOn d) = s.splitOnP fun x => x == c || x == d := by
  induction s with
  | nil => rfl
  | cons x s ih =>
    rw [List.splitOn_cons_eq_if_modifyHead, List.splitOnP_cons_eq_if_modifyHead, ← ih]
    by_cases hc : x == c
    · simp [hc]
    · rw [if_neg hc, flatMap_modifyHead_splitOn (List.splitOn_ne_nil c s)]
      simp [hc]

end Class

end AnnotatedApi.Text
