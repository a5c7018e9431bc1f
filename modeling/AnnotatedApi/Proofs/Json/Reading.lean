import AnnotatedApi.Number.Basic
import AnnotatedApi.Proofs.Json.Nesting
import Mathlib.Data.List.TakeWhile

/-! Reading what was written. A string is read up to its closing quote whatever it holds, a numeral up to
what cannot continue it, and blanks may stand before every token. Main statement: the text of a value
without doubles is read as that value, as far as it is nested within the limit. -/
namespace AnnotatedApi.Json

def Yields {α : Type} (step : (cs : List Char) → Option (α × Rest cs)) (cs : List Char) (a : α)
    (rest : List Char) : Prop :=
  ∃ h, step cs = some (a, ⟨rest, h⟩)

def Passes (step : (cs : List Char) → Option (Rest cs)) (cs rest : List Char) : Prop :=
  ∃ h, step cs = some ⟨rest, h⟩

def Refuses (step : (cs : List Char) → Option (Rest cs)) (cs : List Char) : Prop := step cs = none

section

variable {us : List Nat} {s rest : List Char}

theorem Yields.units?_unescape (h : Yields units? s us rest) {c e : Char} (he : unescape? c = some e) :
    Yields units? ('\\' :: c :: s) (e.toNat :: us) rest := by
  obtain ⟨hl, hs⟩ := h
  have hu : c ≠ 'u' := by rintro rfl; simp [unescape?] at he
  refine ⟨by simp only [List.length_cons]; omega, ?_⟩
  rw [units?.eq_4]
  · simp [he, hs]
  · exact fun _ _ _ _ _ h => absurd h hu

theorem Yields.units?_cons (h : Yields units? s us rest) {c : Char} (hc : ¬c.toNat < 0x20)
    (hquote : c ≠ '"') (hslash : c ≠ '\\') : Yields units? (c :: s) (c.toNat :: us) rest := by
  obtain ⟨hl, hs⟩ := h
  refine ⟨by simp only [List.length_cons]; omega, ?_⟩
  rw [units?.eq_5]
  · simp [hs, hc, hslash]
  all_goals simp [hquote, hslash]

theorem Yields.units?_code (h : Yields units? s us rest) {a b c d : Char} {i j k l : Nat}
    (ha : hexDigit? a = some i) (hb : hexDigit? b = some j) (hc : hexDigit? c = some k)
    (hd : hexDigit? d = some l) :
    Yields units? ('\\' :: 'u' :: a :: b :: c :: d :: s) ((4096 * i + 256 * j + 16 * k + l) :: us)
      rest := by
  obtain ⟨hl, hs⟩ := h
  refine ⟨by simp only [List.length_cons]; omega, ?_⟩
  rw [units?]
  simp [ha, hb, hc, hd, hs]

theorem Yields.units?_escape (h : Yields units? s us rest) (c : Char) :
    Yields units? (escape c ++ s) (c.toNat :: us) rest := by
  generalize he : escape c = e
  unfold escape at he
  split_ifs at he with hquote hslash hn hr ht hb hf hlow
  all_goals subst he
  all_goals try (subst c; exact h.units?_unescape rfl)
  · have hall : ∀ n < 16, hexDigit? (hexDigit n) = some n := by decide
    have hcode :=
      h.units?_code (a := '0') (b := '0') (i := 0) (j := 0) rfl rfl (hall (c.toNat / 16) (by omega))
      (hall (c.toNat % 16) (by omega))
    have hsum : 4096 * 0 + 256 * 0 + 16 * (c.toNat / 16) + c.toNat % 16 = c.toNat := by omega
    rwa [hsum] at hcode
  · exact h.units?_cons hlow hquote hslash

end

theorem yields_units?_flatMap_escape (cs rest : List Char) :
    Yields units? (cs.flatMap escape ++ '"' :: rest) (cs.map Char.toNat) rest := by
  induction cs with
  | nil =>
    refine ⟨by simp, ?_⟩
    change units? ('"' :: rest) = _
    rw [units?]
    rfl
  | cons c cs ih =>
    rw [List.flatMap_cons, List.append_assoc, List.map_cons]
    exact ih.units?_escape c

private theorem ofUnits?_map_toNat (cs : List Char) : ofUnits? (cs.map Char.toNat) = some cs := by
  have hplain (c : Char) : isHighSurrogate c.toNat = false ∧ isLowSurrogate c.toNat = false := by
    have hvalid : c.toNat < 0xD800 ∨ 0xDFFF < c.toNat ∧ c.toNat < 0x110000 := c.valid
    simp [isHighSurrogate, isLowSurrogate]
    omega
  induction cs with
  | nil => rfl
  | cons c cs ih =>
    cases cs with
    | nil => simp [ofUnits?, hplain]
    | cons d cs =>
      simp only [List.map_cons] at ih ⊢
      simp [ofUnits?, hplain, ih]

theorem text?_map_toNat (s : String) : text? (s.toList.map Char.toNat) = some s := by
  simp [text?, ofUnits?_map_toNat]

/-- Nothing that continues an integer comes first. -/
def EndsNumeral (rest : List Char) : Prop :=
  ∀ c, rest.head? = some c → c.isDigit = false ∧ c ≠ '.' ∧ c ≠ 'e' ∧ c ≠ 'E'

private theorem digit?_eq (c : Char) :
    digit? c = if c.isDigit then some (c.toNat - '0'.toNat) else none := by
  simp only [digit?, Char.isDigit, Bool.and_eq_true, decide_eq_true_eq]
  rfl

private theorem digits_append {cs rest : List Char} (hcs : ∀ c ∈ cs, c.isDigit)
    (hrest : ∀ c, rest.head? = some c → c.isDigit = false) :
    digits (cs ++ rest) = (cs.map (·.toNat - '0'.toNat), rest) := by
  induction cs with
  | nil =>
    cases rest with
    | nil => rfl
    | cons c rest => simp [digits, digit?_eq, hrest c rfl]
  | cons c cs ih =>
    obtain ⟨hc, hcs⟩ := List.forall_mem_cons.1 hcs
    simp [digits, digit?_eq, hc, ih hcs]

theorem ofDigits_toDigits (n : Nat) : ofDigits ((Nat.toDigits 10 n).map (·.toNat - '0'.toNat)) = n := by
  have h := Nat.ofDigitChars_toDigits (n := n) (b := 10) (by decide) (by decide)
  rw [Nat.ofDigitChars_eq_foldl] at h
  rw [ofDigits, List.foldl_map, h]

theorem whole?_toDigits (n : Nat) {rest : List Char} (h : EndsNumeral rest) :
    whole? (Nat.toDigits 10 n ++ rest) = some ((Nat.toDigits 10 n).map (·.toNat - '0'.toNat), rest) := by
  have hdigits := digits_append (fun _ => Number.isDigit_of_mem_toDigits (n := n)) fun c hc => (h c hc).1
  have hzero : (Nat.toDigits 10 n).head? = some '0' → (Nat.toDigits 10 n).length = 1 := by
    intro hhead
    rw [Number.eq_zero_of_head?_toDigits hhead]
    rfl
  obtain ⟨c, cs, hcs, hc⟩ := Number.exists_toDigits_eq_cons n
  have hlead : c.toNat - '0'.toNat = 0 → c = '0' := by
    intro hval
    apply Char.toNat_inj.1
    have := (Char.isDigit_iff_toNat.1 hc).1
    omega
  rw [whole?, someDigits?, hdigits]
  rw [hcs] at hzero ⊢
  by_cases h0 : c = '0'
  · have := hzero (by rw [h0]; rfl)
    simp at this
    simp [h0, this]
  · have hne := mt hlead h0
    simp_all

theorem numeral?_word (w : Word) {rest : List Char} (h : EndsNumeral rest) :
    ∃ n, numeral? (((Number.word w).toText Number.jsonLayout).toList ++ rest) = some (n, rest) ∧
      n.number? = some (.word w) := by
  have hfraction : fraction? rest = some ([], rest) := by
    unfold fraction?
    split
    next => exact absurd rfl (h _ rfl).2.1
    next => rfl
  have hexponent : exponent? rest = some (none, rest) := by
    cases rest with
    | nil => rfl
    | cons c rest => simp [exponent?, h c rfl]
  have hminus : minus (((Number.word w).toText Number.jsonLayout).toList ++ rest) =
      (decide (w.val < 0), Nat.toDigits 10 w.val.natAbs ++ rest) := by
    rw [Number.toList_toText_word]
    by_cases hneg : w.val < 0
    · simp [hneg, minus]
    · obtain ⟨c, cs, hcs, hc⟩ := Number.exists_toDigits_eq_cons w.val.natAbs
      simp only [hneg, if_false, List.nil_append, hcs, List.cons_append, decide_false]
      unfold minus
      split
      next heq =>
        cases heq
        exact absurd hc (by decide)
      next => rfl
  refine ⟨⟨decide (w.val < 0), (Nat.toDigits 10 w.val.natAbs).map (·.toNat - '0'.toNat),
    [], none, false⟩, ?_, ?_⟩
  · simp [numeral?, hminus, whole?_toDigits _ h, hfraction, hexponent]
  · simp only [Numeral.number?, ofDigits_toDigits]
    have hval : (if w.val < 0 then -(w.val.natAbs : Int) else w.val.natAbs) = w.val := by
      split <;> omega
    simp only [decide_eq_true_eq, hval, Number.Word.ofInt?_val]
    simp
    omega

def Spaces (w : List Char) : Prop := ∀ c ∈ w, isSpace c

structure Layout.IsBlank (l : Layout) : Prop where
  newline : ∀ depth, Spaces (l.newline depth)
  colon : ∃ w, l.colon = ':' :: w ∧ Spaces w

theorem isBlank_pretty : pretty.IsBlank where
  newline depth := by
    intro c hc
    rcases List.mem_cons.1 hc with rfl | hc
    · decide
    · rw [(List.mem_replicate.1 hc).2]
      decide
  colon := ⟨[' '], rfl, by simp [Spaces, isSpace]⟩

section

variable {w rest : List Char} {c : Char}

theorem Spaces.skipSpace_append (hw : Spaces w) (hc : isSpace c = false) (rest : List Char) :
    skipSpace (w ++ c :: rest) = c :: rest := by
  rw [skipSpace, List.dropWhile_append_of_pos hw, List.dropWhile_cons_of_neg (by simp [hc])]

theorem Spaces.token? (hw : Spaces w) (hc : isSpace c = false) (rest : List Char) :
    Yields Json.token? (w ++ c :: rest) c rest := by
  have hs := hw.skipSpace_append hc rest
  refine ⟨by simp; omega, ?_⟩
  unfold Json.token?
  split
  next h => simp [hs] at h
  next c' rest' h =>
    rw [hs] at h
    cases h
    rfl

theorem Spaces.refuses_expect? (hw : Spaces w) (hc : isSpace c = false) {d : Char} (hd : c ≠ d)
    (rest : List Char) : Refuses (Json.expect? d) (w ++ c :: rest) := by
  obtain ⟨h, ht⟩ := hw.token? hc rest
  simp [Refuses, Json.expect?, ht, hd]

theorem Spaces.expect? (hw : Spaces w) (hc : isSpace c = false) (rest : List Char) :
    Passes (Json.expect? c) (w ++ c :: rest) rest := by
  obtain ⟨h, ht⟩ := hw.token? hc rest
  exact ⟨h, by simp [Json.expect?, ht]⟩

theorem spaces_nil : Spaces [] := by simp [Spaces]

theorem yields_token? (hc : isSpace c = false) (rest : List Char) :
    Yields Json.token? (c :: rest) c rest := spaces_nil.token? hc rest

theorem passes_expect? (hc : isSpace c = false) (rest : List Char) :
    Passes (Json.expect? c) (c :: rest) rest := spaces_nil.expect? hc rest

theorem Spaces.endsNumeral (hw : Spaces w) (hc : c.isDigit = false ∧ c ≠ '.' ∧ c ≠ 'e' ∧ c ≠ 'E')
    (rest : List Char) : EndsNumeral (w ++ c :: rest) := by
  cases w with
  | nil =>
    rintro d ⟨⟩
    exact hc
  | cons b w =>
    rintro d ⟨⟩
    have hb := hw b List.mem_cons_self
    simp only [isSpace, Bool.or_eq_true, decide_eq_true_eq] at hb
    rcases hb with ((rfl | rfl) | rfl) | rfl <;> decide

theorem endsNumeral_comma (rest : List Char) : EndsNumeral (',' :: rest) :=
  spaces_nil.endsNumeral (c := ',') (by decide) rest

end

theorem exists_toText_eq_cons (w : Word) (layout : Number.Double.Layout) :
    ∃ c cs, ((Number.word w).toText layout).toList = c :: cs ∧ (c = '-' ∨ c.isDigit) := by
  rw [Number.toList_toText_word]
  split
  next => exact ⟨_, _, rfl, .inl rfl⟩
  next =>
    obtain ⟨c, cs, hcs, hc⟩ := Number.exists_toDigits_eq_cons w.val.natAbs
    exact ⟨c, cs, hcs, .inr hc⟩

/-- A sign or digit, as far as tokens are told apart by their first characters. -/
theorem ne_of_startsNumeral {c : Char} (h : c = '-' ∨ c.isDigit) {d : Char} (hd : d ≠ '-')
    (hd' : d.isDigit = false) : c ≠ d := by
  rintro rfl
  rcases h with h | h
  · exact hd h
  · simp [h] at hd'

theorem not_isSpace_of_startsNumeral {c : Char} (h : c = '-' ∨ c.isDigit) : isSpace c = false := by
  have h1 := ne_of_startsNumeral h (d := ' ') (by decide) (by decide)
  have h2 := ne_of_startsNumeral h (d := '\n') (by decide) (by decide)
  have h3 := ne_of_startsNumeral h (d := '\t') (by decide) (by decide)
  have h4 := ne_of_startsNumeral h (d := '\r') (by decide) (by decide)
  simp [isSpace, h1, h2, h3, h4]

/-- A value starts with no blank, and with no closing bracket. -/
theorem exists_print_eq_cons (layout : Layout) (k : Nat) {v : Json} (hv : v.IsExact) :
    ∃ c rest, print layout k v = c :: rest ∧ isSpace c = false ∧ c ≠ ']' := by
  cases v with
  | null => exact ⟨'n', _, by rw [print], by decide, by decide⟩
  | bool b =>
    cases b
    · exact ⟨'f', _, by rw [print], by decide, by decide⟩
    · exact ⟨'t', _, by rw [print], by decide, by decide⟩
  | str s => exact ⟨'"', _, by rw [print, quote, List.cons_append], by decide, by decide⟩
  | arr xs =>
    cases xs
    · exact ⟨'[', _, by rw [print], by decide, by decide⟩
    · exact ⟨'[', _, by simp only [print, List.cons_append]; rfl, by decide, by decide⟩
  | obj ms =>
    cases ms
    · exact ⟨'{', _, by rw [print], by decide, by decide⟩
    · exact ⟨'{', _, by simp only [print, List.cons_append]; rfl, by decide, by decide⟩
  | num n =>
    cases n with
    | double d => exact absurd hv (by simp [IsExact])
    | word w =>
      obtain ⟨c, cs, hcs, hc⟩ := exists_toText_eq_cons w Number.jsonLayout
      exact ⟨c, cs, by rw [print, hcs], not_isSpace_of_startsNumeral hc,
        ne_of_startsNumeral hc (by decide) (by decide)⟩

section

variable {n : Nat} {w w' r s rest : List Char} {v : Node} {vs : List Node}

theorem Yields.value?_str {us : List Nat} (h : Yields units? r us rest) (hw : Spaces w) :
    Yields (value? n) (w ++ '"' :: r) ((text? us).elim .unreadable .str) rest := by
  obtain ⟨hl, hu⟩ := h
  obtain ⟨_, ht⟩ := hw.token? (c := '"') (by decide) r
  refine ⟨by simp only [List.length_append, List.length_cons]; omega, ?_⟩
  rw [value?, ht]
  simp [hu]

theorem yields_value?_num {c : Char} {m : Numeral} (hw : Spaces w) (hc : c = '-' ∨ c.isDigit)
    (hm : numeral? (c :: r) = some (m, rest)) :
    Yields (value? n) (w ++ c :: r) (m.number?.elim .unreadable .num) rest := by
  have hl := length_numeral? hm
  obtain ⟨_, ht⟩ := hw.token? (not_isSpace_of_startsNumeral hc) r
  refine ⟨by simp only [List.length_append, List.length_cons] at hl ⊢; omega, ?_⟩
  have hnum : ∃ hr, number? c r = some (m.number?.elim .unreadable .num, ⟨rest, hr⟩) := by
    refine ⟨by simp only [List.length_cons] at hl; omega, ?_⟩
    unfold number?
    split
    next heq =>
      rw [hm] at heq
      cases heq
      rfl
    next heq => simp [hm] at heq
  obtain ⟨hr, hnum⟩ := hnum
  have hne {d : Char} := ne_of_startsNumeral hc (d := d)
  rw [value?, ht]
  simp [hne, hnum]

theorem yields_value?_literal {c : Char} {word : List Char}
    (hword : (c, word, v) ∈ [('n', ['u', 'l', 'l'], .null), ('t', ['r', 'u', 'e'], .bool true),
      ('f', ['a', 'l', 's', 'e'], .bool false)]) (hw : Spaces w) :
    Yields (value? n) (w ++ c :: (word ++ rest)) v rest := by
  have hc : isSpace c = false := by
    simp only [List.mem_cons, Prod.mk.injEq, List.not_mem_nil, or_false] at hword
    rcases hword with ⟨rfl, -⟩ | ⟨rfl, -⟩ | ⟨rfl, -⟩ <;> decide
  obtain ⟨_, ht⟩ := hw.token? hc (word ++ rest)
  refine ⟨by simp only [List.length_append, List.length_cons]; omega, ?_⟩
  rw [value?, ht]
  simp only [List.mem_cons, Prod.mk.injEq, List.not_mem_nil, or_false] at hword
  rcases hword with ⟨rfl, rfl, rfl⟩ | ⟨rfl, rfl, rfl⟩ | ⟨rfl, rfl, rfl⟩ <;> simp [literal?]

theorem yields_value?_nil (hw : Spaces w) :
    Yields (value? n) (w ++ '[' :: ']' :: rest) (within n (.arr [])) rest := by
  obtain ⟨_, ht⟩ := hw.token? (c := '[') (by decide) (']' :: rest)
  obtain ⟨_, he⟩ := passes_expect? (c := ']') (by decide) rest
  refine ⟨by simp only [List.length_append, List.length_cons]; omega, ?_⟩
  rw [value?, ht]
  simp [he]

theorem Yields.value?_arr (h : Yields (elements? (n - 1)) r vs rest) (hw : Spaces w)
    (hr : Refuses (expect? ']') r) :
    Yields (value? n) (w ++ '[' :: r) (within n (.arr vs)) rest := by
  obtain ⟨hl, he⟩ := h
  obtain ⟨_, ht⟩ := hw.token? (c := '[') (by decide) r
  refine ⟨by simp only [List.length_append, List.length_cons]; omega, ?_⟩
  unfold Refuses at hr
  rw [value?, ht]
  simp [he, hr]

theorem yields_value?_empty (hw : Spaces w) :
    Yields (value? n) (w ++ '{' :: '}' :: rest) (within n (.obj [])) rest := by
  obtain ⟨_, ht⟩ := hw.token? (c := '{') (by decide) ('}' :: rest)
  obtain ⟨_, he⟩ := passes_expect? (c := '}') (by decide) rest
  refine ⟨by simp only [List.length_append, List.length_cons]; omega, ?_⟩
  rw [value?, ht]
  simp [he]

theorem Yields.value?_obj {ms : List (String × Node)} (h : Yields (members? (n - 1)) r (some ms) rest)
    (hw : Spaces w) (hr : Refuses (expect? '}') r) :
    Yields (value? n) (w ++ '{' :: r) (within n (.obj ms)) rest := by
  obtain ⟨hl, he⟩ := h
  obtain ⟨_, ht⟩ := hw.token? (c := '{') (by decide) r
  refine ⟨by simp only [List.length_append, List.length_cons]; omega, ?_⟩
  unfold Refuses at hr
  rw [value?, ht]
  simp [he, hr]

theorem Yields.elements?_last (h : Yields (value? n) s v (w ++ ']' :: rest)) (hw : Spaces w) :
    Yields (elements? n) s [v] rest := by
  obtain ⟨hl, hv⟩ := h
  obtain ⟨_, ht⟩ := hw.token? (c := ']') (by decide) rest
  refine ⟨by simp only [List.length_append, List.length_cons] at hl; omega, ?_⟩
  rw [elements?, hv]
  simp [ht]

theorem Yields.elements?_cons (h : Yields (value? n) s v (',' :: r))
    (hr : Yields (elements? n) r vs rest) : Yields (elements? n) s (v :: vs) rest := by
  obtain ⟨hl, hv⟩ := h
  obtain ⟨hl', hr⟩ := hr
  obtain ⟨_, ht⟩ := yields_token? (c := ',') (by decide) r
  refine ⟨by simp only [List.length_cons] at hl; omega, ?_⟩
  rw [elements?, hv]
  simp [ht, hr]

section

variable {us : List Nat} {k : String} (hw : Spaces w) (hkey : Yields units? s us (':' :: r))
  (hk : text? us = some k)

include hw hkey hk

theorem yields_members?_last (hvalue : Yields (value? n) r v (w' ++ '}' :: rest)) (hw' : Spaces w') :
    Yields (members? n) (w ++ '"' :: s) (some [(k, v)]) rest := by
  obtain ⟨hl, hu⟩ := hkey
  obtain ⟨hl', hv⟩ := hvalue
  obtain ⟨_, hquote⟩ := hw.expect? (c := '"') (by decide) s
  obtain ⟨_, hcolon⟩ := passes_expect? (c := ':') (by decide) r
  obtain ⟨_, ht⟩ := hw'.token? (c := '}') (by decide) rest
  refine ⟨by simp only [List.length_append, List.length_cons] at hl hl' ⊢; omega, ?_⟩
  rw [members?, hquote]
  simp [hu, hcolon, hv, ht, hk]

theorem yields_members?_cons {left : List Char} {ms : List (String × Node)}
    (hvalue : Yields (value? n) r v (',' :: rest)) (hrest : Yields (members? n) rest (some ms) left) :
    Yields (members? n) (w ++ '"' :: s) (some ((k, v) :: ms)) left := by
  obtain ⟨hl, hu⟩ := hkey
  obtain ⟨hl', hv⟩ := hvalue
  obtain ⟨hl'', hm⟩ := hrest
  obtain ⟨_, hquote⟩ := hw.expect? (c := '"') (by decide) s
  obtain ⟨_, hcolon⟩ := passes_expect? (c := ':') (by decide) r
  obtain ⟨_, ht⟩ := yields_token? (c := ',') (by decide) rest
  refine ⟨by simp only [List.length_append, List.length_cons] at hl hl' ⊢; omega, ?_⟩
  rw [members?, hquote]
  simp [hu, hcolon, hv, ht, hk, hm]

end

end

section

variable {layout : Layout} (hl : layout.IsBlank)

include hl

mutual

theorem yields_value? (v : Json) (hv : v.IsExact) (n k : Nat) {w : List Char} (hw : Spaces w)
    (rest : List Char) (hrest : EndsNumeral rest) :
    Yields (value? n) (w ++ (print layout k v ++ rest)) (nodeWithin n v) rest := by
  match v with
  | null =>
    simp only [print, nodeWithin]
    exact yields_value?_literal (by simp) hw
  | bool true =>
    simp only [print, nodeWithin]
    exact yields_value?_literal (by simp) hw
  | bool false =>
    simp only [print, nodeWithin]
    exact yields_value?_literal (by simp) hw
  | str s =>
    have h := (yields_units?_flatMap_escape s.toList rest).value?_str (n := n) hw
    rw [text?_map_toNat] at h
    simpa [print, nodeWithin, quote] using h
  | num (.word i) =>
    obtain ⟨m, hm, hnum⟩ := numeral?_word i hrest
    obtain ⟨c, cs, hcs, hc⟩ := exists_toText_eq_cons i Number.jsonLayout
    rw [hcs] at hm
    have h := yields_value?_num (n := n) hw hc hm
    rw [hnum] at h
    simpa [print, nodeWithin, hcs] using h
  | arr [] =>
    simp only [print, nodeWithin, elementsWithin]
    exact yields_value?_nil hw
  | arr (x :: xs) =>
    obtain ⟨hx, hxs⟩ : x.IsExact ∧ ElementsExact xs := by simpa [IsExact, ElementsExact] using hv
    obtain ⟨c, cs, hcs, hc, hclose⟩ := exists_print_eq_cons layout (k + 1) hx
    have h := yields_elements? x hx xs hxs (n - 1) (k + 1) (hl.newline (k + 1)) (hl.newline k) rest
    have hnone := (hl.newline (k + 1)).refuses_expect? hc hclose
      (cs ++ (printElements layout (k + 1) xs ++ (layout.newline k ++ ']' :: rest)))
    rw [← List.cons_append, ← hcs] at hnone
    simpa [print, nodeWithin] using h.value?_arr hw hnone
  | obj [] =>
    simp only [print, nodeWithin, membersWithin]
    exact yields_value?_empty hw
  | obj ((key, v) :: ms) =>
    obtain ⟨hv, hms⟩ : v.IsExact ∧ MembersExact ms := by simpa [IsExact, MembersExact] using hv
    have h := yields_members? key v hv ms hms (n - 1) (k + 1) (hl.newline (k + 1)) (hl.newline k) rest
    have hnone := (hl.newline (k + 1)).refuses_expect? (c := '"') (d := '}') (by decide) (by decide)
      (key.toList.flatMap escape ++ '"' :: (layout.colon ++ (print layout (k + 1) v ++
        (printMembers layout (k + 1) ms ++ (layout.newline k ++ '}' :: rest)))))
    simpa [print, nodeWithin, quote] using h.value?_obj hw (by simpa [quote] using hnone)
termination_by sizeOf v

theorem yields_elements? (x : Json) (hx : x.IsExact) (xs : List Json) (hxs : ElementsExact xs)
    (n k : Nat) {w w' : List Char} (hw : Spaces w) (hw' : Spaces w') (rest : List Char) :
    Yields (elements? n) (w ++ (print layout k x ++ (printElements layout k xs ++ (w' ++ ']' :: rest))))
      (elementsWithin n (x :: xs)) rest := by
  match xs with
  | [] =>
    have h := yields_value? x hx n k hw _ (hw'.endsNumeral (c := ']') (by decide) rest)
    simpa [printElements, elementsWithin] using h.elements?_last hw'
  | y :: ys =>
    obtain ⟨hy, hys⟩ : y.IsExact ∧ ElementsExact ys := by simpa [ElementsExact] using hxs
    have hmore := yields_elements? y hy ys hys n k (hl.newline k) hw' rest
    have h (r : List Char) := yields_value? x hx n k hw _ (endsNumeral_comma r)
    simpa [printElements, elementsWithin] using (h _).elements?_cons hmore
termination_by sizeOf x + sizeOf xs

theorem yields_members? (key : String) (v : Json) (hv : v.IsExact) (ms : List (String × Json))
    (hms : MembersExact ms) (n k : Nat) {w w' : List Char} (hw : Spaces w) (hw' : Spaces w')
    (rest : List Char) :
    Yields (members? n) (w ++ (quote key ++ (layout.colon ++ (print layout k v ++
        (printMembers layout k ms ++ (w' ++ '}' :: rest))))))
      (some (membersWithin n ((key, v) :: ms))) rest := by
  obtain ⟨c, hc, hspaces⟩ := hl.colon
  have hkey (r : List Char) := yields_units?_flatMap_escape key.toList (':' :: r)
  match ms with
  | [] =>
    have h := yields_value? v hv n k hspaces _ (hw'.endsNumeral (c := '}') (by decide) rest)
    simpa [quote, hc, printMembers, membersWithin] using
      yields_members?_last hw (hkey _) (text?_map_toNat key) h hw'
  | (key', v') :: ms =>
    obtain ⟨hv', hms⟩ : v'.IsExact ∧ MembersExact ms := by simpa [MembersExact] using hms
    have hmore := yields_members? key' v' hv' ms hms n k (hl.newline k) hw' rest
    have h (r : List Char) := yields_value? v hv n k hspaces _ (endsNumeral_comma r)
    rw [hc] at hmore
    simpa [quote, hc, printMembers, membersWithin] using
      yields_members?_cons hw (hkey _) (text?_map_toNat key) (h _) hmore
termination_by sizeOf v + sizeOf ms

end

end

/-- The text of a value without doubles is read as that value, as far as the limit admits. -/
theorem read?_render {layout : Layout} (hl : layout.IsBlank) {v : Json} (hv : v.IsExact) :
    read? (v.render layout) = some (nodeWithin nestingLimit v) := by
  have h : Yields (value? nestingLimit) (render layout v).toList (nodeWithin nestingLimit v) [] := by
    simpa [render] using yields_value? hl v hv nestingLimit 0 spaces_nil []
      (by simp [EndsNumeral])
  obtain ⟨_, h⟩ := h
  rw [read?, h]
  rfl

end AnnotatedApi.Json
