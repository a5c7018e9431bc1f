import AnnotatedApi.Proofs.Yaml.Layout
import AnnotatedApi.Proofs.Yaml.Scalar
import AnnotatedApi.Yaml.Unquoted

/-! Texts that are written plain. Main statement: such a text is read up to its last character, where a
colon or the end of its line ends it. -/
namespace AnnotatedApi.Yaml

structure IsPlain (cs : List Char) : Prop where
  ne_nil : cs ≠ []
  printable : ∀ c ∈ cs, isPrintable c
  unbroken : ∀ c ∈ cs, isBreak c = false
  head : cs.head?.any isSpace = false
  last : cs.getLast?.any isSpace = false
  meaningless : hasMeaning cs = false

theorem isPlain_of_allowsPlain {cs : List Char} (hne : cs ≠ []) (h : allowsPlain cs) : IsPlain cs := by
  simp only [allowsPlain, needsEscapes, Bool.not_eq_true', Bool.or_eq_false_iff, List.any_eq_false] at h
  obtain ⟨⟨⟨⟨⟨hp, -⟩, hb⟩, hh⟩, hl⟩, hm⟩ := h
  exact ⟨hne, by simpa using hp, by simpa using hb, hh, hl, hm⟩

theorem startsWithGap_append {cs : List Char} (h : startsWithGap cs = false) (rest : List Char) :
    startsWithGap (cs ++ rest) = false := by
  cases cs with
  | nil => simp [startsWithGap] at h
  | cons c cs => simpa [startsWithGap] using h

private theorem getLast?_any_of_cons {p : Char → Bool} {c : Char} {cs : List Char}
    (h : (c :: cs).getLast?.any p = false) : cs.getLast?.any p = false := by
  cases cs with
  | nil => rfl
  | cons d cs => simpa [List.getLast?_cons_cons] using h

/-- A text without meaning is passed. It goes on at its column; only its first character
may stand before. -/
theorem unquoted?_append {indent column : Nat} {w gap rest rest' : List Char} {broken : Bool}
    (hcol : indent ≤ column ∧ 0 < column ∨ gap = [] ∧ w.head?.any isSpace = false ∧ indent ≤ column + 1)
    (hp : ∀ c ∈ w, isPrintable c) (hb : ∀ c ∈ w, isBreak c = false)
    (hl : w.getLast?.any isSpace = false) (hgap : w = [] → gap = [])
    (hind : hasIndicator (!gap.isEmpty) w = false)
    (hend : unquoted? false indent (column + w.length) [] rest = some ⟨[], rest', broken⟩) :
    unquoted? false indent column gap (w ++ rest) = some ⟨gap ++ w, rest', broken⟩ := by
  induction w generalizing gap column with
  | nil =>
    rw [hgap rfl]
    exact hend
  | cons c w ih =>
    obtain ⟨hpc, hp⟩ := List.forall_mem_cons.1 hp
    obtain ⟨hbc, hb⟩ := List.forall_mem_cons.1 hb
    simp only [hasIndicator, isGap_eq_isSpace hpc hbc, Bool.or_eq_false_iff,
      Bool.and_eq_false_iff] at hind
    obtain ⟨⟨hcolon, hhash⟩, hind⟩ := hind
    rw [List.length_cons, Nat.add_comm w.length, ← Nat.add_assoc] at hend
    have hl' := getLast?_any_of_cons hl
    by_cases hs : isSpace c
    · -- The space is kept back; the text does not end with it.
      have hcol : indent ≤ column ∧ 0 < column := hcol.resolve_right (by simp [hs])
      have hw : w ≠ [] := by
        rintro rfl
        simp [hs] at hl
      rw [hs, (by simp : true = !(gap ++ [c]).isEmpty)] at hind
      have ih := ih (.inl (by omega)) hp hb hl' (absurd · hw) hind hend
      have htab : c ≠ '\t' := fun h => by simp [h, isSpace] at hs
      simpa [unquoted?, hbc, isWhite_eq_isSpace hpc, hs, htab] using ih
    · rw [Bool.not_eq_true] at hs
      rw [hs, (by simp : false = !([] : List Char).isEmpty)] at hind
      have ih := ih (.inl (by omega)) hp hb hl' (fun _ => rfl) hind hend
      have hstop : (c = ':' && startsWithGap (w ++ rest)) = false := by
        rcases hcolon with h | h
        · simp [h]
        · simp [startsWithGap_append h]
      have hnext : (!gap.isEmpty && (decide (column < indent) ||
          decide (column = 0) && atBound (c :: (w ++ rest)) || decide (c = '#'))) = false := by
        rcases hcol with ⟨h, h0⟩ | ⟨rfl, -⟩
        · have hcol : ¬ column < indent := by omega
          have hcol0 : column ≠ 0 := by omega
          cases hg : gap.isEmpty <;> simp_all
        · simp
      simp [unquoted?, hbc, isWhite_eq_isSpace hpc, hs, ih, hstop, hnext]

theorem IsPlain.hasIndicator_eq_false {cs : List Char} (h : IsPlain cs) :
    hasIndicator false cs = false := by
  have := h.meaningless
  simp only [hasMeaning, Bool.or_eq_false_iff] at this
  exact this.1.2

/-- A plain text is passed, where a colon or the end of a line ends it. -/
theorem IsPlain.unquoted? {indent column : Nat} {w rest rest' : List Char} {broken : Bool}
    (h : IsPlain w) (hi : indent ≤ column + 1)
    (hend : unquoted? false indent (column + w.length) [] rest = some ⟨[], rest', broken⟩) :
    unquoted? false indent column [] (w ++ rest) = some ⟨w, rest', broken⟩ :=
  unquoted?_append (.inr ⟨rfl, h.head, hi⟩) h.printable h.unbroken h.last (fun _ => rfl)
    h.hasIndicator_eq_false hend

theorem unquoted?_colon {indent column : Nat} {cs : List Char} (h : startsWithGap cs) :
    unquoted? false indent column [] (':' :: cs) = some ⟨[], ':' :: cs, false⟩ := by
  have hb : isBreak ':' = false := by decide
  simp [unquoted?, hb, isWhite, h]

private theorem unquoted?_replicate {indent column q : Nat} {gap cs : List Char} {d : Char}
    (hd : isLead d) (hq : column + q < indent) (hgap : gap.any isBreak) :
    unquoted? false indent column gap (List.replicate q ' ' ++ d :: cs) = some ⟨[], d :: cs, true⟩ := by
  obtain ⟨hdb, hdw, -⟩ := isLead_iff.1 hd
  induction q generalizing column gap with
  | zero =>
    have hne : gap.isEmpty = false := by
      cases gap <;> simp_all
    have hcol : column < indent := by omega
    simp [unquoted?, hdb, hdw, hne, hcol, hgap]
  | succ q ih =>
    have hb : isBreak ' ' = false := by decide
    simpa [List.replicate_succ, unquoted?, hb, isWhite] using
      ih (by omega : column + 1 + q < indent) (by simp [List.any_append, hgap])

/-- The end of the line ends a plain text, and the blanks of the next line are passed with it. -/
theorem Outdented.unquoted? {p column : Nat} {b : Char} {tail : List Char} (hb : isBreak b)
    (h : Outdented p tail) :
    unquoted? false (p + 1) column [] (b :: tail) = some ⟨[], tail.dropWhile isSpace, true⟩ := by
  cases h with
  | nil => simp [Yaml.unquoted?, hb]
  | @line q d cs hq hd =>
    have hdrop : (List.replicate q ' ' ++ d :: cs).dropWhile isSpace = d :: cs := by
      simp [dropWhile_replicate_append, isSpace_of_isLead hd]
    have h : Yaml.unquoted? false (p + 1) 0 [b] (List.replicate q ' ' ++ d :: cs) = _ :=
      unquoted?_replicate hd (by omega) (by simp [hb])
    simpa [Yaml.unquoted?, hb, hdrop] using h

theorem IsPlain.node_eq {w rest : List Char} {broken : Bool} (h : IsPlain w) :
    (Unquoted.mk w rest broken).node = .plain (String.ofList w) := by
  have := fold_written h.unbroken []
  simp [Unquoted.node, folded, Gap.none, this]

-- A plain text is known for one by its start.

section

variable {c : Char} {w : List Char}

theorem IsPlain.not_mem_indicators (h : IsPlain (c :: w)) : c ∉ indicators := by
  have := h.meaningless
  simp only [hasMeaning, Bool.or_eq_false_iff] at this
  simpa using this.2.1

theorem IsPlain.isGap_eq_false (h : IsPlain (c :: w)) : isGap c = false := by
  rw [isGap_eq_isSpace (h.printable c List.mem_cons_self) (h.unbroken c List.mem_cons_self)]
  simpa using h.head

theorem IsPlain.isLead (h : IsPlain (c :: w)) : isLead c := by
  have hgap := h.isGap_eq_false
  have hprintable := h.printable c List.mem_cons_self
  have hhash : c ≠ '#' := fun hc => h.not_mem_indicators (by simp [hc, indicators])
  have hmark : c ≠ '\ufeff' := by
    rintro rfl
    simp [isPrintable] at hprintable
  simp only [isGap, Bool.or_eq_false_iff] at hgap
  simp [isLead_iff, isWhite, hgap, hhash, hmark]

/-- What is a sign of its own before a gap is not followed by one. -/
theorem IsPlain.startsWithGap_eq_false (h : IsPlain (c :: w)) (hc : c ∈ ['-', '?', ':'])
    (rest : List Char) : startsWithGap (w ++ rest) = false := by
  apply startsWithGap_append
  have hm := h.meaningless
  have hind := h.hasIndicator_eq_false
  simp only [hasMeaning, Bool.or_eq_false_iff] at hm
  simp only [hasIndicator, Bool.or_eq_false_iff] at hind
  rcases List.mem_cons.1 hc with rfl | hc
  · simpa using hm.2.2
  rcases List.mem_cons.1 hc with rfl | hc
  · simpa using hm.2.2
  · rw [List.mem_singleton] at hc
    subst hc
    simpa using hind.1.1

theorem IsPlain.startsPlain (h : IsPlain (c :: w)) (rest : List Char) :
    startsPlain false (c :: (w ++ rest)) := by
  have hgap (hc : c ∈ ['-', '?', ':']) := h.startsWithGap_eq_false hc rest
  by_cases hdash : c = '-'
  · simp [Yaml.startsPlain, hdash, hgap]
  by_cases hsign : c = '?' ∨ c = ':'
  · simp [Yaml.startsPlain, hdash, hsign, hgap]
  · simp [Yaml.startsPlain, hdash, hsign, h.isGap_eq_false, h.not_mem_indicators]

/-- The text starts with no mark of a document, also together with what ends it. -/
private theorem not_isPrefix_append_cons {mark w rest : List Char} {e : Char} (h : ¬ mark <+: w)
    (he : e ∉ mark) : ¬ mark <+: w ++ e :: rest := by
  rintro ⟨t, ht⟩
  rcases List.append_eq_append_iff.1 ht with ⟨u, rfl, -⟩ | ⟨u, rfl, hu⟩
  · exact h ⟨u, rfl⟩
  · cases u with
    | nil => simp at h
    | cons d u =>
      rw [List.cons_append, List.cons.injEq] at hu
      simp [hu.1] at he

theorem IsPlain.atBound_eq_false {e : Char} (h : IsPlain w) (he : e ∉ ['-', '.']) (rest : List Char) :
    atBound (w ++ e :: rest) = false := by
  have hm := h.meaningless
  simp only [hasMeaning, Bool.or_eq_false_iff, decide_eq_false_iff_not] at hm
  have hstart : ¬ startMark <+: w ++ e :: rest :=
    not_isPrefix_append_cons hm.1.1.1 (by simpa [startMark] using fun h => he (by simp [h]))
  have hend : ¬ endMark <+: w ++ e :: rest :=
    not_isPrefix_append_cons hm.1.1.2 (by simpa [endMark] using fun h => he (by simp [h]))
  rw [← List.isPrefixOf_iff_prefix, Bool.not_eq_true] at hstart hend
  simp [atBound, hasMark, hstart, hend]

end

theorem ne_of_isDigit {c d : Char} (hc : c.isDigit) (hd : d.isDigit = false) : c ≠ d := by
  rintro rfl
  simp [hc] at hd

private theorem isPrintable_of_isDigit {c : Char} (h : c.isDigit) : isPrintable c := by
  simp only [Char.isDigit, ge_iff_le, Bool.and_eq_true, decide_eq_true_eq, UInt32.le_iff_toNat_le] at h
  have h1 : 48 ≤ c.toNat := h.1
  have h2 : c.toNat ≤ 57 := h.2
  simp only [isPrintable, Bool.or_eq_true, Bool.and_eq_true, decide_eq_true_eq]
  omega

private theorem isBreak_of_isDigit {c : Char} (h : c.isDigit) : isBreak c = false := by
  simp [isBreak, ne_of_isDigit h]

theorem hasIndicator_eq_false {cs : List Char} (h : ∀ c ∈ cs, c ≠ ':' ∧ c ≠ '#') (afterGap : Bool) :
    hasIndicator afterGap cs = false := by
  induction cs generalizing afterGap with
  | nil => rfl
  | cons c cs ih =>
    obtain ⟨hc, hcs⟩ := List.forall_mem_cons.1 h
    simp [hasIndicator, hc, ih hcs]

theorem isPlain_toText (layout : Number.Double.Layout) (w : Word) :
    IsPlain ((Number.word w).toText layout).toList := by
  obtain ⟨d, ds, hds, hd⟩ := Number.exists_toDigits_eq_cons w.val.natAbs
  have hdigits : ∀ c ∈ d :: ds, c.isDigit := fun c hc => Number.isDigit_of_mem_toDigits (hds ▸ hc)
  rw [Number.toList_toText_word, hds]
  generalize hlead : (if w.val < 0 then ['-'] else []) = lead
  have hlead : lead = [] ∨ lead = ['-'] := by
    split at hlead <;> simp [← hlead]
  have hchars : ∀ c ∈ lead ++ d :: ds, c = '-' ∨ c.isDigit := by
    intro c hc
    rcases List.mem_append.1 hc with hc | hc
    · rcases hlead with rfl | rfl <;> simp_all
    · exact .inr (hdigits c hc)
  have hspace : ∀ c ∈ lead ++ d :: ds, isSpace c = false := fun c hc => by
    rcases hchars c hc with rfl | h
    · decide
    · simp [isSpace, ne_of_isDigit h]
  refine ⟨by simp, fun c hc => ?_, fun c hc => ?_, ?_, ?_, ?_⟩
  · rcases hchars c hc with rfl | h
    · decide
    · exact isPrintable_of_isDigit h
  · rcases hchars c hc with rfl | h
    · decide
    · exact isBreak_of_isDigit h
  · cases h : (lead ++ d :: ds).head? with
    | none => rfl
    | some c => exact hspace c (List.mem_of_head? h)
  · cases h : (lead ++ d :: ds).getLast? with
    | none => rfl
    | some c => exact hspace c (List.mem_of_getLast? h)
  · have hind : hasIndicator false (lead ++ d :: ds) = false := hasIndicator_eq_false (fun c hc => by
      rcases hchars c hc with rfl | h
      · decide
      · exact ⟨ne_of_isDigit h (by decide), ne_of_isDigit h (by decide)⟩) false
    have hgap : isGap d = false := by
      simp [isGap, ne_of_isDigit hd, isBreak_of_isDigit hd]
    have hdash : '-' ≠ d := (ne_of_isDigit hd (by decide)).symm
    have hpoint : '.' ≠ d := (ne_of_isDigit hd (by decide)).symm
    rcases hlead with rfl | rfl
    · rw [List.nil_append] at hind
      simp [hasMeaning, hind, indicators, ne_of_isDigit hd, hdash, hpoint]
    · rw [List.cons_append, List.nil_append] at hind
      simp [hasMeaning, hind, indicators, startsWithGap, hgap, hdash]

end AnnotatedApi.Yaml
