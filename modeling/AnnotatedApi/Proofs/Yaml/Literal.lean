import AnnotatedApi.Proofs.Yaml.Layout
import AnnotatedApi.Yaml.Block

/-! Texts in lines of their own. Main statement: a literal block is read back, up to the line that
stands before its column. -/
namespace AnnotatedApi.Yaml

/-- The line as it is read: its break is there. -/
def Line.row (l : Line) : Row := ⟨l.text, some l.ending⟩

def Line.rowAt (column : Nat) (l : Line) : Row := ⟨l.textAt column, some l.ending⟩

/-- The only break of the line is the one that ends it. -/
structure Line.Proper (l : Line) : Prop where
  unbroken : ∀ c ∈ l.text, isBreak c = false
  ending : isBreak l.ending

theorem proper_of_mem_brokenLines (cs : List Char) : ∀ l ∈ brokenLines cs, l.Proper := by
  induction cs with
  | nil => simp [brokenLines]
  | cons c cs ih =>
    by_cases hc : isBreak c
    · rw [brokenLines_break hc]
      exact List.forall_mem_cons.2 ⟨⟨by simp, hc⟩, ih⟩
    rw [Bool.not_eq_true] at hc
    by_cases hcs : cs = []
    · rw [hcs, brokenLines_singleton hc]
      exact List.forall_mem_singleton.2 ⟨by simpa using hc, rfl⟩
    · obtain ⟨l, ls, hl⟩ := List.exists_cons_of_ne_nil (brokenLines_ne_nil hcs)
      rw [hl, List.forall_mem_cons] at ih
      rw [brokenLines_cons hc hl]
      exact List.forall_mem_cons.2 ⟨⟨List.forall_mem_cons.2 ⟨hc, ih.1.unbroken⟩, ih.1.ending⟩, ih.2⟩

/-- A text that ends with a break is what its lines make together. -/
theorem flatMap_chars_brokenLines {b : Char} (hb : isBreak b) (cs : List Char) :
    (brokenLines (cs ++ [b])).flatMap Line.chars = cs ++ [b] := by
  induction cs with
  | nil =>
    rw [List.nil_append, brokenLines_break hb]
    rfl
  | cons c cs ih =>
    by_cases hc : isBreak c
    · rw [List.cons_append, brokenLines_break hc]
      exact congrArg (c :: ·) ih
    · rw [Bool.not_eq_true] at hc
      obtain ⟨l, ls, hl⟩ := List.exists_cons_of_ne_nil (brokenLines_ne_nil (by simp : cs ++ [b] ≠ []))
      rw [List.cons_append, brokenLines_cons hc hl, ← ih, hl]
      rfl

/-- A text whose last line has a text of its own. -/
theorem exists_brokenLines_append {s : List Char} {d b : Char} (hs : brokenLines s = [⟨[d], b⟩])
    (cs : List Char) :
    ∃ ls t, brokenLines (cs ++ s) = ls ++ [⟨t ++ [d], b⟩] ∧ ls.flatMap Line.chars ++ t = cs := by
  induction cs with
  | nil => exact ⟨[], [], hs, rfl⟩
  | cons c cs ih =>
    obtain ⟨ls, t, h, rfl⟩ := ih
    by_cases hc : isBreak c
    · exact ⟨⟨[], c⟩ :: ls, t, by rw [List.cons_append, brokenLines_break hc, h]; rfl, rfl⟩
    · rw [Bool.not_eq_true] at hc
      cases ls with
      | nil => exact ⟨[], c :: t, brokenLines_cons hc h, rfl⟩
      | cons l ls => exact ⟨⟨c :: l.text, l.ending⟩ :: ls, t, brokenLines_cons hc h, rfl⟩

theorem Row.ofChars_append_break {t : List Char} {b : Char} (ht : ∀ c ∈ t, isBreak c = false)
    (hb : isBreak b) (cs : List Char) : ofChars (t ++ b :: cs) = ⟨t, some b⟩ :: ofChars cs := by
  induction t with
  | nil => simp [ofChars, hb]
  | cons c t ih =>
    obtain ⟨hc, ht⟩ := List.forall_mem_cons.1 ht
    simp [ofChars, hc, ih ht]

theorem Row.exists_ofChars_append {w : List Char} {d : Char} (hw : ∀ c ∈ w, isBreak c = false)
    (hd : isBreak d = false) (cs : List Char) :
    ∃ t e rs, ofChars (w ++ d :: cs) = ⟨w ++ d :: t, e⟩ :: rs := by
  induction w with
  | nil => cases h : ofChars cs <;> simp [ofChars, hd, h]
  | cons c w ih =>
    obtain ⟨hc, hw⟩ := List.forall_mem_cons.1 hw
    obtain ⟨t, e, rs, h⟩ := ih hw
    exact ⟨t, e, rs, by simp [ofChars, hc, h]⟩

theorem Line.Proper.textAt {l : Line} (h : l.Proper) (column : Nat) :
    ∀ c ∈ l.textAt column, isBreak c = false := by
  unfold Line.textAt
  split
  · simp
  · intro c hc
    rcases List.mem_append.1 hc with hc | hc
    · rw [List.eq_of_mem_replicate hc]
      decide
    · exact h.unbroken c hc

theorem ofChars_atColumn {column : Nat} {ls : List Line} (h : ∀ l ∈ ls, l.Proper) (rest : List Char) :
    Row.ofChars (atColumn column ls ++ rest) = ls.map (·.rowAt column) ++ Row.ofChars rest := by
  induction ls with
  | nil => rfl
  | cons l ls ih =>
    obtain ⟨hl, hls⟩ := List.forall_mem_cons.1 h
    have hrow := Row.ofChars_append_break (hl.textAt column) hl.ending (atColumn column ls ++ rest)
    rw [ih hls] at hrow
    simpa [atColumn, Line.rowAt] using hrow

theorem Row.column_replicate_append (n : Nat) (t : List Char) (e : Option Char) :
    (Row.mk (List.replicate n ' ' ++ t) e).column = n + (Row.mk t e).column := by
  simp [column, takeWhile_replicate_append]

theorem Row.content_replicate_append (n : Nat) (t : List Char) (e : Option Char) :
    (Row.mk (List.replicate n ' ' ++ t) e).content = (Row.mk t e).content := by
  simp [content, dropWhile_replicate_append]

/-- The row that follows a block: its text starts before the column of the block. -/
theorem Outdented.rows {p : Nat} {tail : List Char} (h : Outdented p tail) :
    Row.ofChars tail = [] ∨
      ∃ r rs, Row.ofChars tail = r :: rs ∧ r.column ≤ p ∧ r.isTabbed = false ∧
        r.content.isEmpty = false := by
  cases h with
  | nil => exact .inl rfl
  | @line q d cs hq hd =>
    right
    obtain ⟨hb, hw, -⟩ := isLead_iff.1 hd
    have hs := isSpace_of_isLead hd
    have hspaces : ∀ c ∈ List.replicate q ' ', isBreak c = false := by
      intro c hc
      rw [List.eq_of_mem_replicate hc]
      decide
    obtain ⟨t, e, rs, hr⟩ := Row.exists_ofChars_append hspaces hb cs
    have hcontent : (Row.mk (d :: t) e).content = d :: t := by
      simp [Row.content, hs]
    refine ⟨_, _, hr, ?_, ?_, ?_⟩
    · rw [Row.column_replicate_append]
      simpa [Row.column, hs] using hq
    · simp_all [Row.isTabbed, Row.content_replicate_append, isWhite]
    · simp [Row.content_replicate_append, hcontent]

theorem blockRows?_rowAt {p column : Nat} (hcolumn : p < column) {tail : List Char}
    (htail : Outdented p tail) (ls : List Line) :
    blockRows? column (ls.map (·.rowAt column) ++ Row.ofChars tail) =
      some (ls.map Line.row, Row.ofChars tail) := by
  induction ls with
  | nil =>
    rcases htail.rows with h | ⟨r, rs, h, hc, ht, hr⟩
    · simp [h, blockRows?]
    · have : ¬ column ≤ r.column := by omega
      simp [h, blockRows?, this, ht, hr]
  | cons l ls ih =>
    by_cases hl : l.text = []
    · have hrow : l.rowAt column = ⟨[], some l.ending⟩ := by simp [Line.rowAt, Line.textAt, hl]
      have : ¬ column ≤ 0 := by omega
      simp [hrow, blockRows?, Row.column, Row.isTabbed, Row.content, this, ih, Line.row, hl]
    · have hrow : l.rowAt column = ⟨List.replicate column ' ' ++ l.text, some l.ending⟩ := by
        simp [Line.rowAt, Line.textAt, hl]
      simp [hrow, blockRows?, Row.column_replicate_append, ih, Line.row]

theorem foundWidth?_rowAt {column : Nat} {c : Char} {cs : List Char} (hc : isBreak c = false)
    (hw : isWhite c = false) (rows : List Row) :
    foundWidth? ((brokenLines (c :: cs)).map (·.rowAt column) ++ rows) = some column := by
  obtain ⟨t, b, ls, hl⟩ : ∃ t b ls, brokenLines (c :: cs) = ⟨c :: t, b⟩ :: ls := by
    by_cases hcs : cs = []
    · exact ⟨[], _, [], by rw [hcs, brokenLines_singleton hc]⟩
    · obtain ⟨l, ls, hl⟩ := List.exists_cons_of_ne_nil (brokenLines_ne_nil hcs)
      exact ⟨_, _, _, brokenLines_cons hc hl⟩
  have hs : isSpace c = false := by
    simp_all [isWhite, isSpace]
  have hrow : Line.rowAt column ⟨c :: t, b⟩ = ⟨List.replicate column ' ' ++ c :: t, some b⟩ := by
    simp [Line.rowAt, Line.textAt]
  have hcontent : (Row.mk (c :: t) (some b)).content = c :: t := by
    simp [Row.content, hs]
  have hcolumn : (Row.mk (List.replicate column ' ' ++ c :: t) (some b)).column = column := by
    rw [Row.column_replicate_append]
    simp [Row.column, hs]
  simp_all [foundWidth?, Row.isTabbed, Row.content_replicate_append, isWhite]

/-- What the hints of a literal block say of the breaks at its end. -/
def chomping (cs : List Char) : Chomp :=
  match cs.reverse with
  | [] => .strip
  | [c] => if isBreak c then .keep else .strip
  | c :: d :: _ => if !isBreak c then .strip else if isBreak d then .keep else .clip

def givenWidth (cs : List Char) : Option Nat :=
  if cs.head?.any fun c => isSpace c || isBreak c then some 2 else none

def Chomp.hint : Chomp → List Char
  | strip => ['-']
  | clip => []
  | keep => ['+']

theorem literalHints_eq (cs : List Char) :
    literalHints cs = (if (givenWidth cs).isSome then ['2'] else []) ++ (chomping cs).hint := by
  have hchomp : (chomping cs).hint =
      match cs.reverse with
      | [] => ['-']
      | [c] => if isBreak c then ['+'] else ['-']
      | c :: d :: _ => if !isBreak c then ['-'] else if isBreak d then ['+'] else [] := by
    unfold chomping
    rcases cs.reverse with _ | ⟨c, _ | ⟨d, r⟩⟩
    · rfl
    · cases hc : isBreak c <;> simp [hc, Chomp.hint]
    · cases hc : isBreak c <;> cases hd : isBreak d <;> simp [hc, hd, Chomp.hint]
  rw [hchomp, literalHints, givenWidth]
  split <;> rfl

theorem all_isShown_literalHints (cs : List Char) : (literalHints cs).all isShown := by
  rw [literalHints_eq]
  cases chomping cs <;> split <;> decide

theorem parse?_literalHints (cs : List Char) :
    BlockHeader.parse? true (literalHints cs) = some ⟨true, chomping cs, givenWidth cs⟩ := by
  rw [literalHints_eq]
  have hwidth : givenWidth cs = some 2 ∨ givenWidth cs = none := by
    unfold givenWidth
    split <;> simp
  rcases hwidth with h | h <;> rw [h] <;> cases chomping cs <;> rfl

private theorem blockText_keep {h : BlockHeader} (hlit : h.literal) (hchomp : h.chomp = .keep)
    (lead trail : List Char) (white : Bool) (rs : List Row) :
    blockText h lead trail white rs = lead ++ trail ++ rs.flatMap Row.chars := by
  induction rs generalizing lead trail white with
  | nil => simp [blockText, hchomp]
  | cons r rs ih =>
    by_cases hr : r.text = [] <;> simp [blockText, hlit, hr, ih, Row.chars]

/-- If the last line has a text, only the break behind it is in question. -/
private theorem blockText_append {h : BlockHeader} (hlit : h.literal) {r : Row} (hr : r.text ≠ [])
    (lead trail : List Char) (white : Bool) (rs : List Row) :
    blockText h lead trail white (rs ++ [r]) =
      lead ++ trail ++ rs.flatMap Row.chars ++ r.text ++
        match h.chomp with
        | .strip => []
        | _ => r.ending.toList := by
  induction rs generalizing lead trail white with
  | nil => cases hc : h.chomp <;> simp [blockText, hlit, hr, hc]
  | cons r rs ih =>
    by_cases hr : r.text = [] <;> simp [blockText, hlit, hr, ih, Row.chars]

theorem flatMap_chars_row (ls : List Line) :
    (ls.map Line.row).flatMap Row.chars = ls.flatMap Line.chars := by
  rw [List.flatMap_map]
  rfl

theorem blockText_brokenLines_append {h : BlockHeader} (hlit : h.literal) {cs s : List Char} {d b : Char}
    (hs : brokenLines s = [⟨[d], b⟩]) :
    blockText h [] [] false ((brokenLines (cs ++ s)).map Line.row) =
      cs ++ d :: match h.chomp with
        | .strip => []
        | _ => [b] := by
  obtain ⟨ls, t, hl, rfl⟩ := exists_brokenLines_append hs cs
  rw [hl, List.map_append, List.map_singleton, blockText_append hlit (by simp [Line.row]),
    flatMap_chars_row]
  simp [Line.row]

/-- The hints of a literal block give its text back. -/
theorem blockText_chomping (cs : List Char) (width : Option Nat) :
    blockText ⟨true, chomping cs, width⟩ [] [] false ((brokenLines cs).map Line.row) = cs := by
  have hkeep {cs : List Char} {b : Char} (hb : isBreak b) (hchomp : chomping (cs ++ [b]) = .keep) :
      blockText ⟨true, chomping (cs ++ [b]), width⟩ [] [] false
        ((brokenLines (cs ++ [b])).map Line.row) = cs ++ [b] := by
    rw [blockText_keep rfl hchomp, flatMap_chars_row, flatMap_chars_brokenLines hb]
    rfl
  rcases List.eq_nil_or_concat cs with rfl | ⟨cs, b, rfl⟩
  · rfl
  rw [List.concat_eq_append]
  by_cases hb : isBreak b
  · rcases List.eq_nil_or_concat cs with rfl | ⟨cs, d, rfl⟩
    · exact hkeep hb (by simp [chomping, hb])
    rw [List.concat_eq_append]
    by_cases hd : isBreak d
    · exact hkeep hb (by simp [chomping, hb, hd])
    · rw [Bool.not_eq_true] at hd
      have hs : brokenLines [d, b] = [⟨[d], b⟩] := brokenLines_cons hd (brokenLines_break hb [])
      have hchomp : chomping (cs ++ [d, b]) = .clip := by simp [chomping, hb, hd]
      rw [List.append_assoc, List.singleton_append, hchomp, blockText_brokenLines_append rfl hs]
  · rw [Bool.not_eq_true] at hb
    have hchomp : chomping (cs ++ [b]) = .strip := by
      rcases h : cs.reverse with _ | ⟨d, r⟩ <;> simp [chomping, hb, h]
    rw [hchomp, blockText_brokenLines_append rfl (brokenLines_singleton hb)]

theorem givenWidth_cases (column : Nat) {cs : List Char} (hne : cs ≠ []) (h : allowsLiteral cs)
    (rows : List Row) :
    givenWidth cs = some 2 ∨
      givenWidth cs = none ∧
        foundWidth? ((brokenLines cs).map (·.rowAt column) ++ rows) = some column := by
  obtain ⟨c, cs, rfl⟩ := List.exists_cons_of_ne_nil hne
  by_cases hc : isSpace c || isBreak c
  · left
    simp only [givenWidth, List.head?_cons, Option.any_some, hc, if_true]
  · have hp : isPrintable c := by
      simp only [allowsLiteral, needsEscapes, List.any_cons, Bool.not_eq_true',
        Bool.or_eq_false_iff] at h
      simpa using h.1.1.1
    simp only [Bool.or_eq_true, not_or, Bool.not_eq_true] at hc
    refine .inr ⟨by simp [givenWidth, hc], foundWidth?_rowAt hc.2 ?_ rows⟩
    rw [isWhite_eq_isSpace hp, hc.1]

/-- A literal block is read back. Its lines stand two columns behind its parent, and a line at the
column of the parent or before it ends the block. -/
theorem block?_literalHints {p : Nat} {cs tail : List Char} (hne : cs ≠ []) (h : allowsLiteral cs)
    (htail : Outdented p tail) :
    block? true (some p) (literalHints cs ++ '\n' :: (atColumn (p + 2) (brokenLines cs) ++ tail)) =
      some (.text (String.ofList cs), tail) := by
  have hhints : ∀ c ∈ literalHints cs, isBreak c = false := fun c hc =>
    (isShown_iff.1 (List.all_eq_true.1 (all_isShown_literalHints cs) c hc)).2
  have hrows : Row.ofChars (literalHints cs ++ '\n' :: (atColumn (p + 2) (brokenLines cs) ++ tail)) =
      ⟨literalHints cs, some '\n'⟩ :: ((brokenLines cs).map (·.rowAt (p + 2)) ++ Row.ofChars tail) := by
    rw [Row.ofChars_append_break hhints (by decide), ofChars_atColumn (proper_of_mem_brokenLines cs)]
  have hbody := blockRows?_rowAt (by omega : p < p + 2) htail (brokenLines cs)
  rcases givenWidth_cases (p + 2) hne h (Row.ofChars tail) with hwidth | ⟨hwidth, hfound⟩
  · simp [block?, hrows, parse?_literalHints, hwidth, hbody, blockText_chomping,
      Row.flatMap_chars_ofChars]
  · simp [block?, hrows, parse?_literalHints, hwidth, hfound, hbody, blockText_chomping,
      Row.flatMap_chars_ofChars]

end AnnotatedApi.Yaml
