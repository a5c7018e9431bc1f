import AnnotatedApi.Text.Basic
import AnnotatedApi.Text.Letter
import Mathlib.Data.List.TakeWhile

/-! What trimming does to a text that is put together from parts, and how the classes of characters lie
to each other: no blank is a letter or a numeral. -/
namespace AnnotatedApi.Text

def Blanks (w : List Char) : Prop := ∀ c ∈ w, isBlank c

theorem Blanks.nil : Blanks [] := by simp [Blanks]

theorem blanks_singleton {c : Char} (h : isBlank c) : Blanks [c] := by
  intro d hd
  rwa [List.mem_singleton.1 hd]

theorem blanks_space : Blanks [' '] := blanks_singleton (by decide)

@[simp] theorem trimStart_nil : trimStart [] = [] := rfl

theorem trimStart_cons_of_not_isBlank {c : Char} (h : isBlank c = false) (s : List Char) :
    trimStart (c :: s) = c :: s := by
  unfold trimStart
  rw [List.dropWhile_cons_of_neg (by rw [h]; exact Bool.false_ne_true)]

theorem Blanks.trimStart_append {w : List Char} (h : Blanks w) (s : List Char) :
    trimStart (w ++ s) = trimStart s :=
  List.dropWhile_append_of_pos h

theorem Blanks.trimStart_append_cons {w : List Char} (h : Blanks w) {c : Char}
    (hc : isBlank c = false) (s : List Char) : trimStart (w ++ c :: s) = c :: s := by
  rw [h.trimStart_append, trimStart_cons_of_not_isBlank hc]

theorem trimStart_append_cons {c : Char} (hc : isBlank c = false) (s rest : List Char) :
    trimStart (s ++ c :: rest) = trimStart s ++ c :: rest := by
  induction s with
  | nil => exact trimStart_cons_of_not_isBlank hc rest
  | cons d s ih =>
    cases hd : isBlank d with
    | true => simpa [trimStart, hd] using ih
    | false => rw [List.cons_append, trimStart_cons_of_not_isBlank hd,
        trimStart_cons_of_not_isBlank hd, List.cons_append]

theorem Blanks.trimStart_eq_nil {w : List Char} (h : Blanks w) : trimStart w = [] := by
  rw [← List.append_nil w, h.trimStart_append, trimStart_nil]

theorem exists_blanks_append_trimStart (s : List Char) : ∃ w, Blanks w ∧ s = w ++ trimStart s := by
  refine ⟨s.takeWhile isBlank, ?_, (List.takeWhile_append_dropWhile).symm⟩
  intro c hc
  exact List.mem_takeWhile_imp hc

theorem not_isBlank_of_trimStart_eq_cons {s r : List Char} {c : Char} (h : trimStart s = c :: r) :
    isBlank c = false := by
  have hd := List.head?_dropWhile_not isBlank s
  unfold trimStart at h
  rwa [h, List.head?_cons] at hd

theorem trimStart_eq_self {s : List Char} (h : ∀ c, s.head? = some c → isBlank c = false) :
    trimStart s = s := by
  cases s with
  | nil => rfl
  | cons c s => exact trimStart_cons_of_not_isBlank (h c rfl) s

theorem trimEnd_eq_reverse (s : List Char) : trimEnd s = (trimStart s.reverse).reverse := rfl

theorem Blanks.reverse {w : List Char} (h : Blanks w) : Blanks w.reverse := by
  intro c hc
  exact h c (List.mem_reverse.1 hc)

/-- A text that neither starts nor ends with a blank. -/
def Trimmed (s : List Char) : Prop :=
  (∀ c ∈ s.head?, isBlank c = false) ∧ ∀ c ∈ s.getLast?, isBlank c = false

instance (s : List Char) : Decidable (Trimmed s) :=
  decidable_of_iff (s.head?.all (!isBlank ·) ∧ s.getLast?.all (!isBlank ·))
    (by simp [Trimmed, Option.all_eq_true])

/-- Trimming takes away exactly the blanks around a trimmed text. -/
theorem Trimmed.trim_append {s v w : List Char} (h : Trimmed s) (hv : Blanks v) (hw : Blanks w) :
    trim (v ++ (s ++ w)) = s := by
  unfold trim
  rw [hv.trimStart_append, trimEnd_eq_reverse]
  cases s with
  | nil =>
    rw [List.nil_append, hw.trimStart_eq_nil]
    rfl
  | cons c s =>
    rw [List.cons_append, trimStart_cons_of_not_isBlank (h.1 c rfl), ← List.cons_append,
      List.reverse_append, hw.reverse.trimStart_append, trimStart_eq_self, List.reverse_reverse]
    rw [List.head?_reverse]
    exact h.2

theorem Trimmed.trim_eq {s : List Char} (h : Trimmed s) : trim s = s := by
  simpa using h.trim_append .nil .nil

theorem not_isBlank_head?_trimStart (s : List Char) : ∀ c ∈ (trimStart s).head?, isBlank c = false := by
  intro c hc
  obtain ⟨r, hr⟩ := List.head?_eq_some_iff.1 hc
  exact not_isBlank_of_trimStart_eq_cons hr

theorem trimmed_trim (s : List Char) : Trimmed (trim s) := by
  unfold trim
  rw [trimEnd_eq_reverse]
  obtain ⟨w, hw⟩ := trimStart_suffix (trimStart s).reverse
  constructor
  · -- What is left of the start is the start, if anything is left.
    intro c hc
    have hsplit : trimStart s = (trimStart (trimStart s).reverse).reverse ++ w.reverse := by
      rw [← List.reverse_append, hw, List.reverse_reverse]
    apply not_isBlank_head?_trimStart s
    rw [hsplit, List.head?_append, hc]
    rfl
  · rw [List.getLast?_reverse]
    exact not_isBlank_head?_trimStart _

theorem trim_eq_trimStart {s : List Char} (h : ∀ c ∈ s.getLast?, isBlank c = false) :
    trim s = trimStart s := by
  unfold trim
  rw [trimEnd_eq_reverse, trimStart_eq_self, List.reverse_reverse]
  intro c hc
  rw [List.head?_reverse] at hc
  obtain ⟨v, hv⟩ := trimStart_suffix s
  apply h c
  rw [← hv, List.getLast?_append, hc, Option.some_or, Option.mem_some]

theorem Blanks.trim_eq_nil {w : List Char} (h : Blanks w) : trim w = [] := by
  have ht : Trimmed [] := ⟨by simp, by simp⟩
  exact ht.trim_append .nil h

theorem trim_trimStart (s : List Char) : trim (trimStart s) = trim s := by
  unfold trim
  rw [trimStart_eq_self (not_isBlank_head?_trimStart s)]

/-- Two sets of ranges without a common character. -/
def Ranges.disjoint (rs ss : Ranges) : Bool :=
  rs.all fun r => ss.all fun s => r.2 < s.1 || s.2 < r.1

theorem Ranges.not_contains_of_disjoint {rs ss : Ranges} (h : rs.disjoint ss) {c : Char}
    (hc : rs.contains c) : ss.contains c = false := by
  obtain ⟨r, hr, hcr⟩ := List.any_eq_true.1 hc
  apply List.any_eq_false.2
  intro s hs
  have hrs := List.all_eq_true.1 (List.all_eq_true.1 h r hr) s hs
  simp only [Bool.and_eq_true, Bool.or_eq_true, decide_eq_true_eq] at hcr hrs ⊢
  omega

theorem not_isAlphanumeric_of_isBlank {c : Char} (h : isBlank c) : isAlphanumeric c = false := by
  have hl : isLetter c = false := Ranges.not_contains_of_disjoint (by decide +kernel) h
  have hn : isNumeral c = false := Ranges.not_contains_of_disjoint (by decide +kernel) h
  rw [isAlphanumeric, hl, hn, Bool.or_false]

end AnnotatedApi.Text
