import AnnotatedApi.Proofs.Yaml.Layout
import AnnotatedApi.Proofs.Yaml.Scalar
import AnnotatedApi.Yaml.Quoted

/-! Texts between quotes. Between single ones a text may run over lines, which stand at a
column; between double ones whatever cannot be shown is escaped. Main statements: either way
the text is read back. -/
namespace AnnotatedApi.Yaml

/-- The blanks behind a break, before this text. An empty line has none. -/
def margin (column : Nat) (cs : List Char) : List Char :=
  if cs.head?.any isBreak then [] else List.replicate column ' '

/-- A text whose lines, but for the first one, stand at a column. -/
def spread (column : Nat) : List Char → List Char
  | [] => []
  | c :: cs => c :: ((if isBreak c then margin column cs else []) ++ spread column cs)

section

variable {column : Nat} {c : Char} {cs : List Char}

private theorem hanging_brokenLines_cons (hc : isBreak c = false) (h : cs ≠ []) :
    hanging column (brokenLines (c :: cs)) = c :: hanging column (brokenLines cs) := by
  obtain ⟨l, ls, hl⟩ := List.exists_cons_of_ne_nil (brokenLines_ne_nil h)
  rw [brokenLines_cons hc hl, hl]
  rfl

theorem atColumn_brokenLines (h : cs ≠ []) :
    atColumn column (brokenLines cs) = margin column cs ++ hanging column (brokenLines cs) := by
  obtain ⟨c, cs, rfl⟩ := List.exists_cons_of_ne_nil h
  by_cases hc : isBreak c
  · simp [brokenLines_break hc, margin, hc, hanging, atColumn, Line.textAt, Line.chars]
  · have hlead : HasLead (brokenLines (c :: cs)) := by
      cases hl : brokenLines cs <;> simp [brokenLines, hc, hl, HasLead]
    simp [hlead.atColumn_eq, margin, hc]

theorem hanging_brokenLines_append (hc : isBreak c = false) :
    hanging column (brokenLines (cs ++ [c])) = spread column cs ++ [c, '\n'] := by
  induction cs with
  | nil => simp [brokenLines, hc, spread, hanging, Line.chars, atColumn]
  | cons d cs ih =>
    by_cases hd : isBreak d
    · have hhead : (cs ++ [c]).head?.any isBreak = cs.head?.any isBreak := by
        cases cs <;> simp [hc]
      have hmargin : margin column (cs ++ [c]) = margin column cs := by
        rw [margin, margin, hhead]
      rw [List.cons_append, brokenLines_break hd, hanging_cons, atColumn_brokenLines (by simp), hmargin,
        ih]
      simp [spread, hd, Line.chars]
    · rw [Bool.not_eq_true] at hd
      simp [hanging_brokenLines_cons hd, ih, spread, hd]

end

private theorem atBound_cons {c : Char} (h : c ≠ '-') (h' : c ≠ '.') (cs : List Char) :
    atBound (c :: cs) = false := by
  simp [atBound, hasMark, startMark, endMark, h.symm, h'.symm]

theorem single?_cons {c : Char} (hc : c ≠ '\'') (cs : List Char) :
    single? (c :: cs) =
      if isBreak c && atBound cs then none
      else (single? cs).map fun (ps, rest) => (.written c :: ps, rest) := by
  rw [single?, if_neg hc]
  intro _ h
  exact absurd h hc

private theorem single?_replicate (n : Nat) (cs : List Char) :
    single? (List.replicate n ' ' ++ cs) =
      (single? cs).map fun (ps, rest) => (List.replicate n (.written ' ') ++ ps, rest) := by
  induction n with
  | zero => simp
  | succ n ih =>
    have hb : isBreak ' ' = false := by decide
    rw [List.replicate_succ, List.cons_append, single?_cons (by decide), ih, hb]
    simp [List.replicate_succ, Function.comp_def]

def doubled (cs : List Char) : List Char := cs.flatMap fun c => if c = '\'' then ['\'', '\''] else [c]

theorem mem_of_mem_doubled {c : Char} {cs : List Char} (h : c ∈ doubled cs) : c ∈ cs := by
  obtain ⟨d, hd, hcd⟩ := List.mem_flatMap.1 h
  have : c = d := by
    split at hcd <;> simp_all
  exact this ▸ hd

private theorem margin_doubled (column : Nat) (cs : List Char) :
    margin column (doubled cs) = margin column cs := by
  have hhead : (doubled cs).head?.any isBreak = cs.head?.any isBreak := by
    cases cs with
    | nil => rfl
    | cons c cs =>
      by_cases hc : c = '\'' <;> simp [doubled, hc]
  rw [margin, margin, hhead]

theorem single?_margin (column : Nat) (cs cs' : List Char) :
    single? (margin column cs ++ cs') =
      (single? cs').map fun (ps, rest) => ((margin column cs).map .written ++ ps, rest) := by
  by_cases h : cs.head?.any isBreak
  · simp [margin, h]
  · rw [margin, if_neg h, single?_replicate, List.map_replicate]

/-- A document ends neither at the blanks before a line nor at an empty line. -/
theorem atBound_margin_append {column : Nat} (hcolumn : 0 < column) (cs rest : List Char) :
    atBound (margin column cs ++ spread column (doubled cs) ++ rest) = false := by
  obtain ⟨n, rfl⟩ := Nat.exists_eq_add_one_of_ne_zero (Nat.ne_of_gt hcolumn)
  cases cs with
  | nil => exact atBound_cons (by decide) (by decide) _
  | cons c cs =>
    by_cases hc : isBreak c
    · have hne (d : Char) (hd : isBreak d = false) : c ≠ d := by
        rintro rfl
        simp [hc] at hd
      have hq : c ≠ '\'' := hne _ (by decide)
      simp only [margin, List.head?_cons, Option.any_some, hc, if_true, doubled, List.flatMap_cons,
        if_neg hq, spread, List.nil_append, List.cons_append]
      exact atBound_cons (hne _ (by decide)) (hne _ (by decide)) _
    · simp only [margin, List.head?_cons, Option.any_some, hc, List.replicate_succ]
      exact atBound_cons (by decide) (by decide) _

theorem single?_spread_doubled {column : Nat} (hcolumn : 0 < column) (cs : List Char) {rest : List Char}
    (hrest : rest.head? ≠ some '\'') :
    single? (spread column (doubled cs) ++ '\'' :: rest) =
      some ((spread column cs).map .written, rest) := by
  induction cs with
  | nil =>
    cases rest with
    | nil => simp [doubled, spread, single?]
    | cons d rest =>
      have hd : d ≠ '\'' := by simpa using hrest
      simp [doubled, spread, single?, hd]
  | cons c cs ih =>
    have hdoubled : doubled (c :: cs) = (if c = '\'' then ['\'', '\''] else [c]) ++ doubled cs := rfl
    by_cases hc : c = '\''
    · have hb : isBreak '\'' = false := by decide
      subst hc
      simp [hdoubled, spread, hb, single?, ih]
    · rw [hdoubled, if_neg hc, List.cons_append, List.nil_append, spread, List.cons_append,
        single?_cons hc]
      by_cases hb : isBreak c
      · rw [if_pos hb, margin_doubled, atBound_margin_append hcolumn, List.append_assoc, single?_margin,
          ih]
        simp [spread, hb]
      · simp [hb, ih, spread]

private theorem hasPair_cons (p q : Char → Bool) (c : Char) (cs : List Char) :
    hasPair p q (c :: cs) = (p c && cs.head?.any q || hasPair p q cs) := by
  cases cs <;> simp [hasPair]

theorem fold_breaks_margin (first further cs : List Char) (column : Nat) (ps : List Piece) :
    fold (.breaks first further) ((margin column cs).map .written ++ ps) =
      fold (.breaks first further) ps := by
  have hb : isBreak ' ' = false := by decide
  unfold margin
  split
  · rfl
  · induction column with
    | zero => rfl
    | succ n ih => simpa [List.replicate_succ, fold, isWhite, Gap.push, hb] using ih

/-- A text without line feeds, and with no blanks next to its breaks, keeps its lines. -/
theorem fold_spread (column : Nat) {cs : List Char} (hp : ∀ c ∈ cs, isPrintable c) (hn : '\n' ∉ cs)
    (hbefore : hasPair isSpace isBreak cs = false) (hbehind : hasPair isBreak isSpace cs = false) :
    (∀ blanks, blanks = [] ∨ cs.head?.any isBreak = false →
      fold (.blanks blanks) ((spread column cs).map .written) = blanks ++ cs) ∧
    (∀ first further, first ≠ ['\n'] → cs.head?.any isSpace = false →
      fold (.breaks first further) ((spread column cs).map .written) = first ++ further ++ cs) := by
  induction cs with
  | nil =>
    refine ⟨fun blanks _ => by simp [spread, fold, Gap.text], fun first further hfirst _ => ?_⟩
    simp [spread, fold, Gap.text, hfirst]
  | cons c cs ih =>
    obtain ⟨hpc, hp⟩ := List.forall_mem_cons.1 hp
    rw [List.mem_cons, not_or] at hn
    simp only [hasPair_cons, Bool.or_eq_false_iff] at hbefore hbehind
    obtain ⟨ih1, ih2⟩ := ih hp hn.2 hbefore.2 hbehind.2
    by_cases hb : isBreak c
    · have hnext : cs.head?.any isSpace = false := by simpa [hb] using hbehind.1
      have hone : [c] ≠ ['\n'] := by simpa using Ne.symm hn.1
      constructor
      · intro blanks hblanks
        obtain rfl : blanks = [] := hblanks.resolve_right (by simp [hb])
        simp [spread, hb, fold, Gap.push, fold_breaks_margin, ih2 _ _ hone hnext]
      · intro first further hfirst _
        simp [spread, hb, fold, Gap.push, fold_breaks_margin, ih2 _ _ hfirst hnext]
    · rw [Bool.not_eq_true] at hb
      by_cases hs : isSpace c
      · have hnext : cs.head?.any isBreak = false := by simpa [hs] using hbefore.1
        constructor
        · intro blanks _
          simp [spread, hb, fold, isWhite_eq_isSpace hpc, hs, Gap.push, ih1 _ (.inr hnext)]
        · intro first further _ hhead
          simp [hs] at hhead
      · have hrest := ih1 [] (.inl rfl)
        constructor
        · intro blanks _
          simp [spread, hb, fold, isWhite_eq_isSpace hpc, hs, Gap.text, Gap.none, hrest]
        · intro first further hfirst _
          simp [spread, hb, fold, isWhite_eq_isSpace hpc, hs, Gap.text, Gap.none, hrest, hfirst]

theorem quoted?_single {column : Nat} (hcolumn : 0 < column) {cs rest : List Char} (h : allowsSingle cs)
    (hn : '\n' ∉ cs) (hrest : rest.head? ≠ some '\'') :
    quoted? ('\'' :: (spread column (doubled cs) ++ '\'' :: rest)) =
      some (.text (String.ofList cs), rest) := by
  simp only [allowsSingle, needsEscapes, Bool.not_eq_true', Bool.or_eq_false_iff, List.any_eq_false] at h
  obtain ⟨⟨hp, hbefore⟩, hbehind⟩ := h
  have hfold := (fold_spread column (by simpa using hp) hn hbefore hbehind).1 [] (.inl rfl)
  simp [quoted?, single?_spread_doubled hcolumn cs hrest, folded, Gap.none, hfold]

private theorem exists_digitChar_of_mem_toDigits {b n : Nat} (hb : 1 < b) {c : Char}
    (h : c ∈ Nat.toDigits b n) : ∃ d < b, c = d.digitChar := by
  induction n using Nat.strongRecOn with
  | ind n ih =>
    by_cases hn : n < b
    · exact ⟨n, hn, by simpa [Nat.toDigits_of_lt_base hn] using h⟩
    · rw [Nat.toDigits_of_base_le hb (Nat.le_of_not_lt hn), List.mem_append, List.mem_singleton] at h
      rcases h with h | h
      · exact ih (n / b) (Nat.div_lt_self (by omega) hb) h
      · exact ⟨n % b, Nat.mod_lt _ (by omega), h⟩

theorem all_isShown_hexDigits (width n : Nat) : (hexDigits width n).all isShown := by
  have hdigits : ∀ d < 16, isShown (Nat.digitChar d).toUpper := by decide
  have hzero : isShown '0' := by decide
  simp only [hexDigits, List.all_append, List.all_replicate, hzero, List.all_map, Bool.and_eq_true,
    List.all_eq_true]
  refine ⟨by simp, fun c hc => ?_⟩
  obtain ⟨d, hd, rfl⟩ := exists_digitChar_of_mem_toDigits (by decide) hc
  exact hdigits d hd

section

variable {width : Nat} {c : Char} (hc : (Nat.toDigits 16 c.toNat).length ≤ width)
include hc

theorem length_hexDigits : (hexDigits width c.toNat).length = width := by
  rw [hexDigits, List.length_append, List.length_replicate, List.length_map]
  exact Nat.sub_add_cancel hc

theorem codePoint?_hexDigits (rest : List Char) :
    codePoint? width (hexDigits width c.toNat ++ rest) = some (.meant c, width + 1) := by
  have hlen := length_hexDigits hc
  have hdigits : ofDigits? 16 (hexDigits width c.toNat) = some c.toNat :=
    ofDigits?_replicate_append (by decide) (by decide) _ _
  have hvalid : c.toNat.isValidChar := c.valid
  have hchar : Char.ofNatAux c.toNat hvalid = c := by
    have := Char.ofNat_toNat c
    rwa [Char.ofNat, dif_pos hvalid] at this
  have htake : (hexDigits width c.toNat ++ rest).take width = hexDigits width c.toNat := by
    rw [List.take_append_of_le_length (by omega), List.take_of_length_le (by omega)]
  have hge : ¬ (hexDigits width c.toNat ++ rest).length < width := by
    rw [List.length_append]
    omega
  rw [codePoint?, if_neg hge, htake, hdigits]
  exact (dif_pos hvalid).trans (by rw [hchar])

end

structure IsEscape (c : Char) (e : List Char) : Prop where
  length_le : e.length ≤ 5
  shown : e.all isShown
  unescape?_append : ∀ rest, unescape? (e ++ rest) = some (.meant c, e.length)

/-- A letter before the digits of a number says how many they are. -/
theorem isEscape_hexDigits {letter c : Char} {width : Nat} (hletter : isShown letter)
    (hwidth : width ≤ 4) (hunescape : ∀ cs, unescape? (letter :: cs) = codePoint? width cs)
    (hc : (Nat.toDigits 16 c.toNat).length ≤ width) :
    IsEscape c (letter :: hexDigits width c.toNat) where
  length_le := by
    rw [List.length_cons, length_hexDigits hc]
    exact Nat.succ_le_succ hwidth
  shown := by rw [List.all_cons, hletter, all_isShown_hexDigits, Bool.and_self]
  unescape?_append rest := by
    rw [List.cons_append, hunescape, codePoint?_hexDigits hc, List.length_cons, length_hexDigits hc]

/-- A character is written as it is, or as an escape that stands for it. -/
theorem escape_cases (c : Char) :
    escape c = [c] ∧ isShown c ∧ c ≠ '"' ∧ c ≠ '\\' ∨ ∃ e, escape c = '\\' :: e ∧ IsEscape c e := by
  by_cases hc : c ∈ ['"', '\\', '\x00', '\x07', '\x08', '\t', '\n', '\x0b', '\x0c', '\r', '\x1b',
      '\u0085', '\u2028', '\u2029']
  · right
    simp only [List.mem_cons, List.not_mem_nil, or_false] at hc
    rcases hc with rfl | rfl | rfl | rfl | rfl | rfl | rfl | rfl | rfl | rfl | rfl | rfl | rfl | rfl <;>
      exact ⟨_, rfl, by decide, by decide, fun _ => rfl⟩
  simp only [List.mem_cons, List.not_mem_nil, or_false, not_or] at hc
  by_cases hp : isPrintable c && !isBreak c
  · left
    exact ⟨by simp only [escape, hc, hp, if_true, if_false], hp, hc.1, hc.2.1⟩
  right
  have hlow : c.toNat < 0x10000 := by
    have hbreak : isBreak c = false := by simp [isBreak, hc]
    simp [isPrintable, hbreak] at hp
    omega
  have hescape : escape c =
      '\\' :: if c.toNat ≤ 0xFF then 'x' :: hexDigits 2 c.toNat else 'u' :: hexDigits 4 c.toNat := by
    simp only [escape, hc, hp, if_false, Bool.false_eq_true]
    split <;> rfl
  refine ⟨_, hescape, ?_⟩
  split
  · exact isEscape_hexDigits (by decide) (by decide) (fun _ => rfl)
      ((Nat.length_toDigits_le_iff (by decide) (by decide)).2 (by omega))
  · exact isEscape_hexDigits (by decide) (by decide) (fun _ => rfl)
      ((Nat.length_toDigits_le_iff (by decide) (by decide)).2 hlow)

theorem length_escape_le (c : Char) : (escape c).length ≤ 6 := by
  rcases escape_cases c with ⟨he, -⟩ | ⟨e, he, h⟩
  · simp [he]
  · rw [he, List.length_cons]
    exact Nat.succ_le_succ h.length_le

theorem isShown_of_mem_escape {c d : Char} (h : d ∈ escape c) : isShown d := by
  rcases escape_cases c with ⟨he, hshown, -⟩ | ⟨e, he, hmeant⟩
  · rw [he, List.mem_singleton] at h
    exact h ▸ hshown
  · rw [he, List.mem_cons] at h
    rcases h with rfl | h
    · decide
    · exact List.all_eq_true.1 hmeant.shown d h

theorem exists_double?_flatMap_escape (cs rest : List Char) :
    ∃ ps, double? (cs.flatMap escape ++ '"' :: rest) = some (ps, rest) ∧
      ∀ blanks, fold (.blanks blanks) ps = blanks ++ cs := by
  induction cs with
  | nil => exact ⟨[], by simp [double?], by simp [fold, Gap.text]⟩
  | cons c cs ih =>
    obtain ⟨ps, hps, hfold⟩ := ih
    rcases escape_cases c with ⟨he, hshown, hq, hs⟩ | ⟨e, he, hmeant⟩
    · have hb : isBreak c = false := by simpa using (Bool.and_eq_true_iff.1 hshown).2
      refine ⟨.written c :: ps, ?_, fun blanks => ?_⟩
      · simp [he, double?, hq, hs, hb, hps]
      · by_cases hw : isWhite c <;> simp [fold, hb, hw, Gap.push, Gap.text, Gap.none, hfold]
    · refine ⟨.meant c :: ps, ?_, fun blanks => ?_⟩
      · simp [he, double?, hmeant.unescape?_append, hps]
      · simp [fold, Gap.text, Gap.none, hfold]

theorem quoted?_double (cs rest : List Char) :
    quoted? ('"' :: (cs.flatMap escape ++ '"' :: rest)) = some (.text (String.ofList cs), rest) := by
  obtain ⟨ps, hps, hfold⟩ := exists_double?_flatMap_escape cs rest
  simp [quoted?, hps, folded, Gap.none, hfold]

end AnnotatedApi.Yaml
