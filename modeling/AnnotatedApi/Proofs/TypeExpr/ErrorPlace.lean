import AnnotatedApi.Number.Basic
import AnnotatedApi.Proofs.Text.Parts
import AnnotatedApi.Proofs.TypeExpr.Locality

/-! The places that error messages name. Main statement: the place of an error is a token of the text,
what stands before it is the beginning of a type expression, and what stands further behind than the
next character has no influence on the error. -/
namespace AnnotatedApi

open Text

namespace TypeError

def place? : TypeError → Option (Char × Nat)
  | unexpected c n => some (c, n)
  | missing _ c n => some (c, n)
  | _ => none

def placeText (c : Char) (n : Nat) : String := s!"'{c}' at offset {n}"

/-- The message ends with the character `c` and the offset `n`. -/
def Names (message : String) (c : Char) (n : Nat) : Prop := ∃ before, message = before ++ placeText c n

theorem toList_placeText (c : Char) (n : Nat) :
    (placeText c n).toList = "'".toList ++ c :: "' at offset".toList ++ ' ' :: Nat.toDigits 10 n := by
  simp [placeText, toString]

theorem Names.eq {message : String} {c d : Char} {m n : Nat} (h : Names message c m)
    (h' : Names message d n) : c = d ∧ m = n := by
  obtain ⟨x, rfl⟩ := h
  obtain ⟨y, h⟩ := h'
  have hlist := congrArg String.toList h
  have hblank : ∀ n, ' ' ∉ Nat.toDigits 10 n := by
    intro n hn
    exact absurd (Number.isDigit_of_mem_toDigits hn) (by decide)
  rw [String.toList_append, String.toList_append, toList_placeText, toList_placeText,
    ← List.append_assoc, ← List.append_assoc y.toList] at hlist
  obtain ⟨hfront, hdigits⟩ := append_cons_inj_of_not_mem (hblank m) (hblank n) hlist
  have hchar := (List.append_inj' hfront rfl).2
  refine ⟨by simpa using hchar, ?_⟩
  calc
    m = Nat.ofDigitChars 10 (Nat.toDigits 10 m) 0 := Nat.ofDigitChars_ten_toDigits.symm
    _ = Nat.ofDigitChars 10 (Nat.toDigits 10 n) 0 := by rw [hdigits]
    _ = n := Nat.ofDigitChars_ten_toDigits

theorem Names.isDigit_getLast? {message : String} {c : Char} {n : Nat} (h : Names message c n) :
    ∃ d, message.toList.getLast? = some d ∧ d.isDigit := by
  obtain ⟨x, rfl⟩ := h
  have hne : Nat.toDigits 10 n ≠ [] := Nat.toDigits_ne_nil
  refine ⟨_, ?_, Number.isDigit_of_mem_toDigits (List.getLast_mem hne)⟩
  rw [String.toList_append, toList_placeText, List.getLast?_append, List.getLast?_append,
    List.getLast?_cons, List.getLast?_eq_some_getLast hne]
  rfl

private theorem not_isDigit_getLast? {e : TypeError} (h : e.place? = none) :
    ∃ d, e.message.toList.getLast? = some d ∧ d.isDigit = false := by
  cases e with
  | empty => exact ⟨'n', by decide +kernel, by decide⟩
  | unexpectedEnd => exact ⟨'n', by decide +kernel, by decide⟩
  | missingAtEnd w =>
    have hend : (toString "' but reached the end").toList.getLast? = some 'd' := by decide +kernel
    refine ⟨'d', ?_, by decide⟩
    unfold message
    rw [String.toList_append, List.getLast?_append, hend]
    rfl
  | unexpected | missing => cases h

theorem names_of_place? {e : TypeError} {c : Char} {n : Nat} (h : e.place? = some (c, n)) :
    Names e.message c n := by
  cases e with
  | unexpected =>
    cases h
    refine ⟨"unexpected ", String.toList_inj.1 ?_⟩
    unfold message
    simp [placeText, toString]
  | missing w =>
    cases h
    refine ⟨s!"expected '{w}' but found ", String.toList_inj.1 ?_⟩
    unfold message
    simp [placeText, toString]
  | empty | unexpectedEnd | missingAtEnd => cases h

theorem names_message_iff {e : TypeError} {c : Char} {n : Nat} :
    Names e.message c n ↔ e.place? = some (c, n) := by
  refine ⟨fun h => ?_, names_of_place?⟩
  cases hp : e.place? with
  | some p =>
    obtain ⟨rfl, rfl⟩ := h.eq (names_of_place? hp)
    rfl
  | none =>
    obtain ⟨d, hd, hdigit⟩ := h.isDigit_getLast?
    obtain ⟨d', hd', hdigit'⟩ := not_isDigit_getLast? hp
    rw [hd] at hd'
    cases hd'
    cases hdigit.symm.trans hdigit'

end TypeError

namespace TypeExpr

open Grammar

/-- What stops the reading of a text. Behind a type that has been read it is the next token. -/
def stop (s : List Char) : Fault :=
  match alternation s with
  | .error f => f
  | .ok (_, r) => .unexpected (trimStart r.1)

/-- The text is the beginning of a type expression. -/
def Begins (u : List Char) : Prop := ∃ more t, parseChars (u ++ more) = .ok t

theorem begins_of_alternation {u more : List Char} {t : TypeExpr}
    (h : Alternation false (u ++ more) t) : Begins u := by
  obtain ⟨t', ht'⟩ := (Whole.mk h .nil).make_greedy
  rw [List.append_nil] at ht'
  exact ⟨more, t', parseChars_eq_ok_iff.2 ht'⟩

theorem exists_append_stop (s : List Char) :
    ∃ u, s = u ++ (stop s).rest ∧ trimStart (stop s).rest = (stop s).rest ∧ Begins u := by
  unfold stop
  cases h : alternation s with
  | error f =>
    obtain ⟨u, hu, hrest, more, t, ht⟩ := (stopped s).alternation h
    exact ⟨u, hu, hrest, begins_of_alternation ht⟩
  | ok p =>
    obtain ⟨t, r, hr⟩ := p
    obtain ⟨u, hu, ht⟩ := (derived s).alternation ⟨hr, h⟩
    obtain ⟨w, hw, hs⟩ := exists_blanks_append_trimStart r
    refine ⟨u ++ w, ?_, trimStart_trimStart r, [], t, ?_⟩
    · show s = u ++ w ++ trimStart r
      rw [List.append_assoc, ← hs, hu]
    · rw [List.append_nil, parseChars_eq_ok_iff]
      exact .mk ht hw

theorem Within.stop_suffix {s s' : List Char} (h : Within s' (alternation s)) :
    (stop s).rest <:+ s' := by
  unfold stop
  cases ha : alternation s with
  | error f => exact h.fails ha
  | ok p => exact (trimStart_suffix p.2.1).trans (h.reads ⟨p.2.2, ha⟩)

theorem eq_locate_stop {s : List Char} {e : TypeError} (h : parseChars s = .error e) :
    trimStart s = [] ∧ e = .empty ∨ trimStart s ≠ [] ∧ e = (stop s).locate s := by
  unfold parseChars at h
  unfold stop
  split at h
  next hs =>
    cases h
    exact .inl ⟨List.isEmpty_iff.1 hs, rfl⟩
  next hs =>
    refine .inr ⟨fun hn => hs (List.isEmpty_iff.2 hn), ?_⟩
    split at h
    next f ha =>
      cases h
      rw [ha]
    next t r hr ha =>
      split at h
      next => cases h
      next =>
        cases h
        rw [ha]

theorem parseChars_of_stop {s : List Char} (hs : trimStart s ≠ []) (h : (stop s).rest ≠ []) :
    parseChars s = .error ((stop s).locate s) := by
  unfold parseChars
  unfold stop at h ⊢
  rw [if_neg (by rwa [List.isEmpty_iff])]
  cases ha : alternation s with
  | error f => rfl
  | ok p =>
    obtain ⟨t, r, hr⟩ := p
    rw [ha] at h
    dsimp only
    rw [if_neg (by rwa [List.isEmpty_iff])]

theorem place?_locate (f : Fault) (u : List Char) :
    (f.locate (u ++ f.rest)).place? = f.rest.head?.map (·, u.length) := by
  rcases f with (_ | ⟨c, r⟩) | ⟨w, _ | ⟨c, r⟩⟩
  · rfl
  · simp [Fault.locate, Fault.rest, TypeError.place?]
  · rfl
  · simp [Fault.locate, Fault.rest, TypeError.place?]

theorem place?_eq {s : List Char} {e : TypeError} (h : parseChars s = .error e) :
    ∃ u, s = u ++ (stop s).rest ∧ trimStart (stop s).rest = (stop s).rest ∧ Begins u ∧
      e.place? = (stop s).rest.head?.map (·, u.length) := by
  obtain ⟨u, hu, hrest, hbegins⟩ := exists_append_stop s
  refine ⟨u, hu, hrest, hbegins, ?_⟩
  rcases eq_locate_stop h with ⟨hs, rfl⟩ | ⟨-, rfl⟩
  · cases hr : (stop s).rest with
    | nil => rfl
    | cons c r =>
      -- A token is left, so the text is not blank.
      rw [hr] at hu hrest
      rw [hu, trimStart_append_cons (not_isBlank_of_trimStart_eq_cons hrest)] at hs
      simp at hs
  · have hplace := place?_locate (stop s) u
    rwa [← hu] at hplace

namespace Fork

variable {k : Fork} {u : List Char}

theorem eq_nil_of_left {v : List Char} (h : k.left v = k.left []) : v = [] := by
  simpa [left] using h

theorem stop_right (h : (stop (k.left u)).rest = k.left []) :
    stop (k.right u) = (stop (k.left u)).withRest (k.right []) := by
  cases (k.unmoved u).alternation with
  | past hw =>
    have hs := hw.stop_suffix
    rw [h] at hs
    exact absurd hs.length_le (by simp [left])
  | @reads t v hx hy =>
    obtain ⟨_, hx⟩ := hx
    obtain ⟨_, hy⟩ := hy
    have hv : trimStart v = [] := by
      apply eq_nil_of_left (k := k)
      simpa [stop, hx, Fault.rest, trimStart_left] using h
    simp [stop, hx, hy, trimStart_right, hv, Fault.withRest]
  | @fails f v hx hf hy =>
    have hv : v = [] := by
      apply eq_nil_of_left (k := k)
      simpa [stop, hx, hf] using h
    simp [stop, hx, hy, hv]

theorem locate_withRest {f : Fault} (h : f.rest = k.left []) :
    (f.withRest (k.right [])).locate (k.right u) = f.locate (k.left u) := by
  cases f with
  | unexpected rest =>
    cases h
    simp [Fault.withRest, Fault.locate, left, right]
  | missing w rest =>
    cases h
    simp [Fault.withRest, Fault.locate, left, right]

theorem parseChars_right (h : (stop (k.left u)).rest = k.left []) {e : TypeError}
    (he : parseChars (k.left u) = .error e) : parseChars (k.right u) = .error e := by
  have hright : trimStart (k.right u) ≠ [] := by
    rw [trimStart_right]
    exact List.append_ne_nil_of_right_ne_nil _ (List.cons_ne_nil _ _)
  have hstop := stop_right h
  have hrest : (stop (k.right u)).rest ≠ [] := by
    rw [hstop]
    cases stop (k.left u) <;> simp [Fault.withRest, Fault.rest, right]
  rcases eq_locate_stop he with ⟨hs, -⟩ | ⟨-, rfl⟩
  · rw [trimStart_left] at hs
    exact absurd hs (List.append_ne_nil_of_right_ne_nil _ (List.cons_ne_nil _ _))
  · rw [parseChars_of_stop hright hrest, hstop, locate_withRest h]

end Fork

/-- A text that agrees with another one up to the character behind a sign has that sign too. -/
private theorem exists_of_take_eq {s u r : List Char} {c : Char}
    (h : s.take (u.length + 2) = (u ++ c :: r).take (u.length + 2)) :
    ∃ r', s = u ++ c :: r' ∧ r.head? = r'.head? := by
  rw [List.take_length_add_append] at h
  refine ⟨r.take 1 ++ s.drop (u.length + 2), ?_, ?_⟩
  · conv_lhs => rw [← List.take_append_drop (u.length + 2) s, h]
    simp
  · cases r with
    | nil =>
      have hs : s.length = u.length + 1 := by
        have hlength := congrArg List.length h
        simp at hlength
        omega
      simp [hs]
    | cons d r => simp

/-- If a message names a character and an offset, then that is a character of the text at this offset, and
not a blank, what stands before it is the beginning of a type expression, and all texts with the same
characters up to the one behind it have the same error. A message that names none is given only if nothing
of the text is left, and then it is the beginning of a type expression. -/
theorem parse_error_local (source : String) (e : TypeError) (h : parse source = .error e) :
    (∀ c n, TypeError.Names e.message c n →
      n < source.length ∧ source.toList[n]? = some c ∧ isBlank c = false ∧
        Begins (source.toList.take n) ∧
        ∀ other : String, other.toList.take (n + 2) = source.toList.take (n + 2) →
          parse other = .error e) ∧
      ((∀ c n, ¬ TypeError.Names e.message c n) →
        (stop source.toList).rest = [] ∧ Begins source.toList) := by
  obtain ⟨u, hu, hrest, hbegins, hplace⟩ := place?_eq h
  constructor
  · intro c n hnames
    rw [TypeError.names_message_iff.1 hnames] at hplace
    obtain ⟨c', hc, heq⟩ := Option.map_eq_some_iff.1 hplace.symm
    cases heq
    obtain ⟨r, hr⟩ := List.head?_eq_some_iff.1 hc
    rw [hr] at hu hrest
    have hblank := not_isBlank_of_trimStart_eq_cons hrest
    refine ⟨?_, ?_, hblank, ?_, ?_⟩
    · rw [← String.length_toList, hu]
      simp
    · simp [hu]
    · simpa [hu] using hbegins
    · intro other hother
      rw [hu] at hother
      obtain ⟨r', hr', hhead⟩ := exists_of_take_eq hother
      let k : Fork := ⟨c, r, r', hblank, hhead⟩
      have hleft : source.toList = k.left u := hu
      have hright : other.toList = k.right u := hr'
      rw [parse, hright]
      rw [parse, hleft] at h
      rw [hleft] at hr
      exact k.parseChars_right hr h
  · intro hnone
    have hempty : (stop source.toList).rest = [] := by
      cases hr : (stop source.toList).rest with
      | nil => rfl
      | cons c r =>
        rw [hr] at hplace
        exact absurd (TypeError.names_message_iff.2 hplace) (hnone c u.length)
    rw [hempty, List.append_nil] at hu
    exact ⟨hempty, hu ▸ hbegins⟩

/-- A point is the fault in the first two texts, because a blank stands behind it. The third
text is only not finished. -/
theorem parse_error_local_point :
    parse "A.<é. >" = .error (.missing '>' '.' 4) ∧ parse "A.<é. b>|!" = .error (.missing '>' '.' 4) ∧
      parse "Map< é , " = .error .unexpectedEnd ∧ Begins "Map< é , ".toList := by
  have herror {source : String} {e : TypeError} (h : (parse source).map (fun _ => ()) = .error e) :
      parse source = .error e := by
    cases hp : parse source with
    | ok t =>
      rw [hp] at h
      cases h
    | error e' =>
      rw [hp] at h
      cases h
      rfl
  have hpoint : parse "A.<é. >" = .error (.missing '>' '.' 4) := herror (by decide +kernel)
  have hend : parse "Map< é , " = .error .unexpectedEnd := herror (by decide +kernel)
  refine ⟨hpoint, ?_, hend, ?_⟩
  · have hnames := TypeError.names_of_place? (e := .missing '>' '.' 4) rfl
    obtain ⟨-, -, -, -, hother⟩ := (parse_error_local _ _ hpoint).1 '.' 4 hnames
    exact hother "A.<é. b>|!" (by decide +kernel)
  · refine ((parse_error_local _ _ hend).2 ?_).2
    intro c n hnames
    cases TypeError.names_message_iff.1 hnames

-- To agree up to the point is not enough: it is no fault if a name starts behind it.
example : ((parse "A.<é.b>").map fun _ => ()) = .ok () := by decide +kernel

end TypeExpr

end AnnotatedApi
