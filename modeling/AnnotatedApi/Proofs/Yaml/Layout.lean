import AnnotatedApi.Yaml.Fold
import AnnotatedApi.Yaml.Writer

/-! Where the lines of a value stand in the text. Lines are moved to the right as a whole, level by
level; here the column of each line is an argument, so that the text of a value is put together
from those of its parts. -/
namespace AnnotatedApi.Yaml

open Json

namespace Line

def chars (l : Line) : List Char := l.text ++ [l.ending]

/-- The text of the line at a column; an empty one has no columns. -/
def textAt (column : Nat) (l : Line) : List Char :=
  if l.text.isEmpty then [] else List.replicate column ' ' ++ l.text

end Line

def atColumn (column : Nat) (ls : List Line) : List Char :=
  ls.flatMap fun l => l.textAt column ++ [l.ending]

/-- Lines of which the first one follows something, and the others start at a column. -/
def hanging (column : Nat) : List Line → List Char
  | [] => []
  | l :: ls => l.chars ++ atColumn column ls

def HasLead (ls : List Line) : Prop := ∃ l ls', ls = l :: ls' ∧ l.text ≠ []

section

variable {c : Nat} {ls : List Line}

theorem HasLead.ne_nil (h : HasLead ls) : ls ≠ [] := by
  obtain ⟨l, ls, rfl, -⟩ := h
  simp

theorem HasLead.append (h : HasLead ls) (ls' : List Line) : HasLead (ls ++ ls') := by
  obtain ⟨l, ls, rfl, hl⟩ := h
  exact ⟨l, ls ++ ls', rfl, hl⟩

theorem hasLead_hang {lead : List Char} (h : lead ≠ []) (ls : List Line) : HasLead (hang lead ls) := by
  cases ls <;> simp [HasLead, hang, h]

@[simp] theorem atColumn_nil : atColumn c [] = [] := rfl

@[simp] theorem atColumn_append (ls' : List Line) :
    atColumn c (ls ++ ls') = atColumn c ls ++ atColumn c ls' := List.flatMap_append

theorem hanging_cons (l : Line) : hanging c (l :: ls) = l.chars ++ atColumn c ls := rfl

theorem HasLead.atColumn_eq (h : HasLead ls) : atColumn c ls = List.replicate c ' ' ++ hanging c ls := by
  obtain ⟨l, ls, rfl, hl⟩ := h
  simp [atColumn, hanging, Line.textAt, Line.chars, hl]

theorem atColumn_indent : atColumn c (indent ls) = atColumn (c + 2) ls := by
  rw [atColumn, indent, List.flatMap_map]
  congr
  funext l
  by_cases h : l.text = [] <;> simp [h, Line.textAt, List.replicate_succ']

theorem hanging_append (h : ls ≠ []) (ls' : List Line) :
    hanging c (ls ++ ls') = hanging c ls ++ atColumn c ls' := by
  obtain ⟨l, ls, rfl⟩ := List.exists_cons_of_ne_nil h
  simp [hanging]

theorem hanging_hang (h : ls ≠ []) (lead : List Char) :
    hanging c (hang lead ls) = lead ++ hanging (c + 2) ls := by
  obtain ⟨l, ls, rfl⟩ := List.exists_cons_of_ne_nil h
  simp [hang, hanging, atColumn_indent, Line.chars]

theorem atColumn_hang {lead : List Char} (hlead : lead ≠ []) (h : ls ≠ []) :
    atColumn c (hang lead ls) = List.replicate c ' ' ++ (lead ++ hanging (c + 2) ls) := by
  rw [(hasLead_hang hlead ls).atColumn_eq, hanging_hang h]

end

-- Of the characters that are written as they are, only the space is blank within a line.

theorem isWhite_eq_isSpace {c : Char} (h : isPrintable c) : isWhite c = isSpace c := by
  by_cases hc : c = '\t'
  · subst hc
    simp [isPrintable] at h
  · simp [isWhite, isSpace, hc]

theorem isGap_eq_isSpace {c : Char} (h : isPrintable c) (hb : isBreak c = false) :
    isGap c = isSpace c := by
  by_cases ht : c = '\t'
  · subst ht
    simp [isPrintable] at h
  · by_cases h0 : c = '\x00'
    · subst h0
      simp [isPrintable] at h
    · simp [isGap, isSpace, ht, h0, hb]

/-- Shown as it is within a line. -/
def isShown (c : Char) : Bool := isPrintable c && !isBreak c

theorem isShown_iff {c : Char} : isShown c ↔ isPrintable c ∧ isBreak c = false := by
  simp [isShown]

/-- A character that a token can start with: neither a blank nor a comment. -/
def isLead (c : Char) : Bool := !(isBreak c || isWhite c || c = '#' || c = '\ufeff')

theorem dropWhile_replicate_append (n : Nat) (cs : List Char) :
    (List.replicate n ' ' ++ cs).dropWhile isSpace = cs.dropWhile isSpace :=
  List.dropWhile_append_of_pos (by simp [isSpace])

theorem takeWhile_replicate_append (n : Nat) (cs : List Char) :
    (List.replicate n ' ' ++ cs).takeWhile isSpace = List.replicate n ' ' ++ cs.takeWhile isSpace :=
  List.takeWhile_append_of_pos (by simp [isSpace])

theorem eq_of_mem_takeWhile {c : Char} {cs : List Char} (h : c ∈ cs.takeWhile isSpace) : c = ' ' := by
  simpa [isSpace] using List.all_eq_true.1 List.all_takeWhile c h

theorem isLead_iff {d : Char} : isLead d ↔
    isBreak d = false ∧ isWhite d = false ∧ d ≠ '#' ∧ d ≠ '\ufeff' := by
  simp [isLead, and_assoc]

theorem isSpace_of_isLead {d : Char} (h : isLead d) : isSpace d = false := by
  have := (isLead_iff.1 h).2.1
  simp_all [isWhite, isSpace]

/-- Nothing follows, or a line that starts at the column or before it. -/
inductive Outdented (column : Nat) : List Char → Prop
  | nil : Outdented column []
  | line {q : Nat} {d : Char} {cs : List Char} (hq : q ≤ column) (hd : isLead d) :
    Outdented column (List.replicate q ' ' ++ d :: cs)

theorem Outdented.mono {p c : Nat} (hpc : p ≤ c) {cs : List Char} (h : Outdented p cs) :
    Outdented c cs := by
  cases h with
  | nil => exact .nil
  | line hq hd => exact .line (Nat.le_trans hq hpc) hd

theorem brokenLines_break {c : Char} (hc : isBreak c) (cs : List Char) :
    brokenLines (c :: cs) = ⟨[], c⟩ :: brokenLines cs := by
  simp [brokenLines, hc]

theorem brokenLines_singleton {c : Char} (hc : isBreak c = false) : brokenLines [c] = [⟨[c], '\n'⟩] := by
  simp [brokenLines, hc]

theorem brokenLines_cons {c : Char} (hc : isBreak c = false) {cs : List Char} {l : Line} {ls : List Line}
    (h : brokenLines cs = l :: ls) : brokenLines (c :: cs) = ⟨c :: l.text, l.ending⟩ :: ls := by
  simp [brokenLines, hc, h]

theorem brokenLines_ne_nil {cs : List Char} (h : cs ≠ []) : brokenLines cs ≠ [] := by
  obtain ⟨c, cs, rfl⟩ := List.exists_cons_of_ne_nil h
  rw [brokenLines]
  split
  · simp
  · cases brokenLines cs <;> simp

theorem scalarLines_ne_nil (s : String) : scalarLines s ≠ [] := by
  unfold scalarLines
  split
  · simp
  · exact brokenLines_ne_nil (by simp)
  · simp
  · simp

theorem memberLines_hasLead (k : String) (v : Json) : HasLead (memberLines k v) := by
  unfold memberLines
  split
  · split
    · exact ⟨_, _, rfl, by simp⟩
    · exact ⟨_, _, rfl, by simp⟩
    · exact hasLead_hang (by simp) _
  · exact (hasLead_hang (by simp) _).append _

theorem lines_arr_cons (x : Json) (xs : List Json) : lines (arr (x :: xs)) = itemLines (x :: xs) := by
  rw [lines, itemLines]

theorem lines_obj_cons (m : String × Json) (ms : List (String × Json)) :
    lines (obj (m :: ms)) = memberListLines (m :: ms) := by
  rw [lines, memberListLines]

theorem itemLines_hasLead (x : Json) (xs : List Json) : HasLead (itemLines (x :: xs)) := by
  rw [itemLines]
  exact (hasLead_hang (by simp) _).append _

theorem memberListLines_hasLead (m : String × Json) (ms : List (String × Json)) :
    HasLead (memberListLines (m :: ms)) := by
  rw [memberListLines]
  exact (memberLines_hasLead m.1 m.2).append _

theorem lines_ne_nil : (v : Json) → lines v ≠ []
  | null | Json.bool true | Json.bool false | num _ | arr [] | obj [] => by simp [lines]
  | str s => by
    rw [lines]
    exact scalarLines_ne_nil s
  | arr (x :: xs) => by
    rw [lines_arr_cons]
    exact (itemLines_hasLead x xs).ne_nil
  | obj (m :: ms) => by
    rw [lines_obj_cons]
    exact (memberListLines_hasLead m ms).ne_nil

variable (c : Nat) (k : String) (v : Json)

def afterColon : Json → List Char
  | arr (x :: xs) => '\n' :: atColumn c (lines (arr (x :: xs)))
  | obj (m :: ms) => '\n' :: atColumn (c + 2) (lines (obj (m :: ms)))
  | v => ' ' :: hanging (c + 2) (lines v)

theorem hanging_lines_arr (x : Json) (xs : List Json) :
    hanging c (lines (arr (x :: xs))) = '-' :: ' ' :: hanging (c + 2) (lines x) ++
      atColumn c (itemLines xs) := by
  rw [lines, hanging_append (hasLead_hang (by simp) _).ne_nil, hanging_hang (lines_ne_nil x)]
  rfl

theorem atColumn_itemLines_cons (x : Json) (xs : List Json) :
    atColumn c (itemLines (x :: xs)) =
      List.replicate c ' ' ++ hanging c (lines (arr (x :: xs))) := by
  rw [lines_arr_cons, (itemLines_hasLead x xs).atColumn_eq]

theorem hanging_lines_obj (ms : List (String × Json)) :
    hanging c (lines (obj ((k, v) :: ms))) =
      hanging c (memberLines k v) ++ atColumn c (memberListLines ms) := by
  rw [lines, hanging_append (memberLines_hasLead k v).ne_nil]

theorem atColumn_memberListLines_cons (ms : List (String × Json)) :
    atColumn c (memberListLines ((k, v) :: ms)) =
      List.replicate c ' ' ++ hanging c (lines (obj ((k, v) :: ms))) := by
  rw [lines_obj_cons, (memberListLines_hasLead (k, v) ms).atColumn_eq]

theorem afterColon_arr_cons (x : Json) (xs : List Json) :
    afterColon c (arr (x :: xs)) = '\n' ::
      (List.replicate c ' ' ++ hanging c (lines (arr (x :: xs)))) := by
  rw [afterColon, lines_arr_cons, (itemLines_hasLead x xs).atColumn_eq]

theorem afterColon_obj_cons (ms : List (String × Json)) :
    afterColon c (obj ((k, v) :: ms)) =
      '\n' :: (List.replicate (c + 2) ' ' ++ hanging (c + 2) (lines (obj ((k, v) :: ms)))) := by
  rw [afterColon, lines_obj_cons, (memberListLines_hasLead (k, v) ms).atColumn_eq]

theorem startsWithGap_afterColon (rest : List Char) : startsWithGap (afterColon c v ++ rest) := by
  unfold afterColon
  split <;> rfl

theorem hanging_memberLines (h : isSimpleKey k) :
    hanging c (memberLines k v) = keyText k ++ ':' :: afterColon c v := by
  unfold memberLines
  rw [if_pos h]
  split
  · simp [afterColon, hanging, Line.chars, lines]
  · simp [afterColon, hanging, Line.chars, lines, atColumn_indent]
  next harr hobj =>
    rw [hanging_hang (lines_ne_nil v)]
    unfold afterColon
    split
    · exact absurd rfl (harr _ _)
    · exact absurd rfl (hobj _ _ _)
    · simp

theorem hanging_memberLines_of_not_simple (h : isSimpleKey k = false) :
    hanging c (memberLines k v) =
      '?' :: ' ' :: hanging (c + 2) (scalarLines k) ++
        (List.replicate c ' ' ++ ':' :: ' ' :: hanging (c + 2) (lines v)) := by
  unfold memberLines
  rw [if_neg (by simp [h]), hanging_append (hasLead_hang (by simp) _).ne_nil,
    hanging_hang (scalarLines_ne_nil k), atColumn_hang (by simp) (lines_ne_nil v)]
  rfl

end AnnotatedApi.Yaml
