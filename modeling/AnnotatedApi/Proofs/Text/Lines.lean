import AnnotatedApi.Text.Basic
import Mathlib.Data.List.Basic

/-! The lines of a text that is put together from lines, and of a text without CR. -/
namespace AnnotatedApi.Text

theorem dropReturn_eq_self {l : List Char} (h : '\r' ∉ l) : dropReturn l = l := by
  unfold dropReturn
  rw [if_neg]
  intro hr
  exact h (List.mem_of_getLast? hr)

theorem lines_append_newline {l : List Char} (h : '\n' ∉ l) (s : List Char) :
    lines (l ++ '\n' :: s) = dropReturn l :: lines s := by
  have hs : s.splitOn '\n' ≠ [] := List.splitOn_ne_nil _ _
  unfold lines
  rw [List.splitOn_append_cons_self_of_not_mem h]
  dsimp only
  rw [List.dropLast_cons_of_ne_nil hs, List.map_cons, List.cons_append, List.getLast?_cons_of_ne_nil hs]

theorem lines_of_not_mem {l : List Char} (h : '\n' ∉ l) (hne : l ≠ []) : lines l = [l] := by
  unfold lines
  rw [List.splitOn_eq_singleton h]
  simp [hne]

/-- A text is one line, or a line and a text behind its line end. -/
theorem induction_on_lines {P : List Char → Prop} (last : ∀ l, '\n' ∉ l → P l)
    (step : ∀ l s, '\n' ∉ l → P s → P (l ++ '\n' :: s)) (s : List Char) : P s := by
  by_cases hn : '\n' ∈ s
  · obtain ⟨l, rest, hs, hl⟩ := List.eq_append_cons_of_mem hn
    have hlen : rest.length < s.length := by
      rw [hs, List.length_append, List.length_cons]
      omega
    rw [hs]
    exact step l rest hl (induction_on_lines last step rest)
  · exact last s hn
termination_by s.length

theorem lines_eq_splitOn {s : List Char} (hr : '\r' ∉ s) (hne : s ≠ [])
    (hl : s.getLast? ≠ some '\n') : lines s = s.splitOn '\n' := by
  induction s using induction_on_lines with
  | last l hn => rw [lines_of_not_mem hn hne, List.splitOn_eq_singleton hn]
  | step l s hn ih =>
    simp only [List.mem_append, List.mem_cons, not_or] at hr
    have hs : s ≠ [] := by
      rintro rfl
      exact hl List.getLast?_concat
    have hl' : s.getLast? ≠ some '\n' := by
      rwa [List.getLast?_append_of_ne_nil _ (List.cons_ne_nil _ _),
        List.getLast?_cons_of_ne_nil hs] at hl
    rw [lines_append_newline hn, List.splitOn_append_cons_self_of_not_mem hn, dropReturn_eq_self hr.1,
      ih hr.2.2 hs hl']

theorem not_mem_of_mem_splitOn {s l : List Char} (h : l ∈ s.splitOn '\n') : '\n' ∉ l := by
  induction s using induction_on_lines with
  | last s hn =>
    rw [List.splitOn_eq_singleton hn, List.mem_singleton] at h
    rwa [h]
  | step l' s hn ih =>
    rw [List.splitOn_append_cons_self_of_not_mem hn, List.mem_cons] at h
    rcases h with rfl | h
    · exact hn
    · exact ih h

theorem infix_of_mem_splitOn {s l : List Char} (h : l ∈ s.splitOn '\n') : l <:+: s := by
  induction s using induction_on_lines with
  | last s hn =>
    rw [List.splitOn_eq_singleton hn, List.mem_singleton] at h
    subst h
    exact List.infix_rfl
  | step l' s hn ih =>
    rw [List.splitOn_append_cons_self_of_not_mem hn, List.mem_cons] at h
    rcases h with rfl | h
    · exact (List.prefix_append _ _).isInfix
    · exact (ih h).trans ⟨l' ++ ['\n'], [], by simp⟩

/-- What stands before a text on its first line changes nothing in the other lines. -/
theorem splitOn_append {h : List Char} (hn : '\n' ∉ h) (s : List Char) :
    (h ++ s).splitOn '\n' = (s.splitOn '\n').modifyHead (h ++ ·) := by
  induction s using induction_on_lines with
  | last l hl =>
    rw [List.splitOn_eq_singleton hl, List.splitOn_eq_singleton (by simp [hn, hl])]
    rfl
  | step l s hl _ =>
    rw [← List.append_assoc, List.splitOn_append_cons_self_of_not_mem (by simp [hn, hl]),
      List.splitOn_append_cons_self_of_not_mem hl]
    rfl

end AnnotatedApi.Text
