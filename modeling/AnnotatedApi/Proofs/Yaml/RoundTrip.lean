import AnnotatedApi.Proofs.Yaml.Nodes

/-! Reading what was written. A text holds only characters that may stand in one, so that its tokens are
read from it as it is. Main statement: the text of an object with members is read as that object, with
every string and every key that very string, as far as the object is not nested too deeply. -/
namespace AnnotatedApi.Yaml

open Json

def AllPrintable (ls : List Line) : Prop := ∀ l ∈ ls, ∀ c ∈ l.chars, isPrintable c

theorem AllPrintable.append {ls ls' : List Line} (h : AllPrintable ls) (h' : AllPrintable ls') :
    AllPrintable (ls ++ ls') :=
  List.forall_mem_append.2 ⟨h, h'⟩

theorem allPrintable_singleton {text : List Char} (h : ∀ c ∈ text, isPrintable c) :
    AllPrintable [⟨text, '\n'⟩] := by
  have hn : isPrintable '\n' := by decide
  simpa [AllPrintable, Line.chars, or_imp, forall_and] using ⟨h, hn⟩

theorem AllPrintable.indent {ls : List Line} (h : AllPrintable ls) : AllPrintable (indent ls) := by
  intro l hl c hc
  obtain ⟨l, hl', rfl⟩ := List.mem_map.1 hl
  split at hc
  · exact h l hl' c hc
  · simp only [Line.chars, List.cons_append, List.mem_cons] at hc
    rcases hc with rfl | rfl | hc
    · decide
    · decide
    · exact h l hl' c hc

theorem AllPrintable.hang {lead : List Char} {ls : List Line} (hlead : lead.all isPrintable)
    (h : AllPrintable ls) : AllPrintable (hang lead ls) := by
  rw [List.all_eq_true] at hlead
  cases ls with
  | nil => exact allPrintable_singleton hlead
  | cons l ls =>
    obtain ⟨hl, hls⟩ := List.forall_mem_cons.1 h
    refine List.forall_mem_cons.2 ⟨fun c hc => ?_, AllPrintable.indent hls⟩
    simp only [Line.chars, List.append_assoc, List.mem_append] at hc
    rcases hc with hc | hc
    · exact hlead c hc
    · exact hl c (by simpa [Line.chars] using hc)

theorem allPrintable_brokenLines {cs : List Char} (h : ∀ c ∈ cs, isPrintable c) :
    AllPrintable (brokenLines cs) := by
  induction cs with
  | nil => simp [brokenLines, AllPrintable]
  | cons c cs ih =>
    obtain ⟨hc, hcs⟩ := List.forall_mem_cons.1 h
    by_cases hb : isBreak c
    · rw [brokenLines_break hb]
      exact List.forall_mem_cons.2 ⟨by simpa [Line.chars] using hc, ih hcs⟩
    · rw [Bool.not_eq_true] at hb
      cases hls : brokenLines cs with
      | nil =>
        rw [brokenLines, if_neg (by simp [hb]), hls]
        exact allPrintable_singleton (by simpa using hc)
      | cons l ls =>
        rw [brokenLines_cons hb hls]
        obtain ⟨hl, hls⟩ := List.forall_mem_cons.1 (hls ▸ ih hcs)
        exact List.forall_mem_cons.2 ⟨List.forall_mem_cons.2 ⟨hc, hl⟩, hls⟩

private theorem isPrintable_of_not_needsEscapes {cs : List Char} (h : needsEscapes cs = false) :
    ∀ c ∈ cs, isPrintable c := by
  simp only [needsEscapes, Bool.or_eq_false_iff, List.any_eq_false] at h
  simpa using h.1

theorem allPrintable_scalarLines (s : String) : AllPrintable (scalarLines s) := by
  have hstyle := style_spec s
  unfold scalarLines
  cases h : style s with
  | plain =>
    rw [h] at hstyle
    exact allPrintable_singleton hstyle.1.printable
  | single =>
    rw [h] at hstyle
    have hs := hstyle.2
    simp only [allowsSingle, Bool.not_eq_true', Bool.or_eq_false_iff] at hs
    refine allPrintable_brokenLines fun c hc => ?_
    simp only [List.cons_append, List.mem_cons, List.mem_append, List.not_mem_nil, or_false] at hc
    rcases hc with rfl | hc | rfl
    · decide
    · exact isPrintable_of_not_needsEscapes hs.1 c (mem_of_mem_doubled hc)
    · decide
  | double =>
    refine allPrintable_singleton fun c hc => ?_
    simp only [List.cons_append, List.mem_cons, List.mem_append, List.mem_flatMap, List.not_mem_nil,
      or_false] at hc
    rcases hc with rfl | ⟨d, -, hc⟩ | rfl
    · decide
    · exact (isShown_iff.1 (isShown_of_mem_escape hc)).1
    · decide
  | literal =>
    rw [h] at hstyle
    have hs := hstyle.2
    simp only [allowsLiteral, Bool.not_eq_true', Bool.or_eq_false_iff] at hs
    have hhints : ∀ c ∈ '|' :: literalHints s.toList, isPrintable c :=
      List.forall_mem_cons.2 ⟨by decide, fun c hc =>
        (isShown_iff.1 (List.all_eq_true.1 (all_isShown_literalHints s.toList) c hc)).1⟩
    exact (allPrintable_singleton hhints).append
      (allPrintable_brokenLines (isPrintable_of_not_needsEscapes hs.1))

theorem isPrintable_of_mem_keyText {k : String} {c : Char} (h : c ∈ keyText k) : isPrintable c := by
  obtain ⟨l, hl, hc⟩ := List.mem_flatMap.1 h
  exact allPrintable_scalarLines k l hl c (List.mem_append_left _ hc)

theorem allPrintable_memberLines (k : String) {v : Json} (hv : AllPrintable (lines v)) :
    AllPrintable (memberLines k v) := by
  have hkey : (keyText k).all isPrintable := List.all_eq_true.2 fun c hc => isPrintable_of_mem_keyText hc
  have hcolon : ∀ c ∈ keyText k ++ [':'], isPrintable c := by
    rw [← List.all_eq_true, List.all_append, hkey]
    rfl
  unfold memberLines
  split
  · split
    · rw [lines] at hv
      exact (allPrintable_singleton hcolon).append hv
    · rw [lines] at hv
      exact (allPrintable_singleton hcolon).append hv.indent
    · refine hv.hang ?_
      rw [List.all_append, hkey]
      rfl
  · exact ((allPrintable_scalarLines k).hang (by decide)).append (hv.hang (by decide))

theorem allPrintable_itemLines {xs : List Json} (h : ∀ x ∈ xs, AllPrintable (lines x)) :
    AllPrintable (itemLines xs) := by
  induction xs with
  | nil => simp [itemLines, AllPrintable]
  | cons x xs ih =>
    obtain ⟨hx, hxs⟩ := List.forall_mem_cons.1 h
    rw [itemLines]
    exact (hx.hang (by decide)).append (ih hxs)

theorem allPrintable_memberListLines {ms : List (String × Json)}
    (h : ∀ m ∈ ms, AllPrintable (lines m.2)) : AllPrintable (memberListLines ms) := by
  induction ms with
  | nil => simp [memberListLines, AllPrintable]
  | cons m ms ih =>
    obtain ⟨hm, hms⟩ := List.forall_mem_cons.1 h
    rw [memberListLines]
    exact (allPrintable_memberLines m.1 hm).append (ih hms)

theorem allPrintable_lines {v : Json} (h : v.IsExact) : AllPrintable (lines v) := by
  induction v using Json.induction with
  | null =>
    rw [lines]
    exact allPrintable_singleton (isPlain_words "null" (by simp)).printable
  | bool b =>
    cases b with
    | false =>
      rw [lines]
      exact allPrintable_singleton (isPlain_words "false" (by simp)).printable
    | true =>
      rw [lines]
      exact allPrintable_singleton (isPlain_words "true" (by simp)).printable
  | num n =>
    cases n with
    | word w =>
      rw [lines]
      exact allPrintable_singleton (isPlain_toText Number.yamlLayout w).printable
    | double _ => exact h.elim
  | str s =>
    rw [lines]
    exact allPrintable_scalarLines s
  | arr xs ih =>
    cases xs with
    | nil =>
      rw [lines]
      exact allPrintable_singleton (List.all_eq_true.1 rfl)
    | cons x xs =>
      rw [lines_arr_cons]
      exact allPrintable_itemLines fun y hy => ih y hy (elementsExact_iff.1 h y hy)
  | obj ms ih =>
    cases ms with
    | nil =>
      rw [lines]
      exact allPrintable_singleton (List.all_eq_true.1 rfl)
    | cons m ms =>
      rw [lines_obj_cons]
      exact allPrintable_memberListLines fun n hn => ih n hn (membersExact_iff.1 h n hn)

theorem unifyBreaks_of_isPrintable {cs : List Char} (h : ∀ c ∈ cs, isPrintable c) :
    unifyBreaks cs = cs := by
  fun_induction unifyBreaks cs with
  | case1 cs => exact absurd (h '\r' List.mem_cons_self) (by decide)
  | case2 c cs _ ih =>
    obtain ⟨hc, hcs⟩ := List.forall_mem_cons.1 h
    have hne : ∀ d, isPrintable d = false → c ≠ d := by
      rintro d hd rfl
      simp [hc] at hd
    simp [ih hcs, hne '\r' (by decide), hne '\u0085' (by decide)]
  | case3 => rfl

theorem toList_render (v : Json) : (render v).toList = hanging 0 (lines v) := by
  obtain ⟨l, ls, h⟩ := List.exists_cons_of_ne_nil (lines_ne_nil v)
  have htext (l : Line) : l.textAt 0 = l.text := by
    by_cases hl : l.text = [] <;> simp [Line.textAt, hl]
  simp [render, h, hanging, atColumn, htext, Line.chars]

theorem isPrintable_of_mem_render {v : Json} (h : v.IsExact) :
    ∀ c ∈ (render v).toList, isPrintable c := by
  intro c hc
  rw [render, String.toList_ofList] at hc
  obtain ⟨l, hl, hc⟩ := List.mem_flatMap.1 hc
  exact allPrintable_lines h l hl c hc

variable {k : String} {v : Json} {ms : List (String × Json)}

theorem scan?_render (h : (obj ((k, v) :: ms)).IsExact) :
    Token.scan? (render (obj ((k, v) :: ms))).toList = some (tokens false (obj ((k, v) :: ms))) := by
  rw [Token.scan?, unifyBreaks_of_isPrintable (isPrintable_of_mem_render h), toList_render]
  exact run?_obj h (Nat.lt_succ_self _)

theorem read?_render (h : (obj ((k, v) :: ms)).IsExact) :
    read? (render (obj ((k, v) :: ms))) =
      some ((toNode (obj ((k, v) :: ms))).within Node.depthLimit) := by
  have hprintable := isPrintable_of_mem_render h
  have hmark : (render (obj ((k, v) :: ms))).toList.head? ≠ some '\ufeff' := fun hhead =>
    absurd (hprintable '\ufeff' (List.mem_of_head? hhead)) (by decide)
  have hlegal : (render (obj ((k, v) :: ms))).toList.all isLegal :=
    List.all_eq_true.2 fun c hc => by simp [isLegal, hprintable c hc]
  simp [read?, hmark, hlegal, scan?_render h, document?_tokens]

/-- The text of an object is read as that object exactly if it is not nested too deeply. -/
theorem value?_read?_render (h : (obj ((k, v) :: ms)).IsExact) :
    (read? (render (obj ((k, v) :: ms)))).bind Node.value? =
      if (obj ((k, v) :: ms)).depth ≤ Node.depthLimit then some (obj ((k, v) :: ms)) else none := by
  rw [read?_render h, Option.bind_some, value?_within _ _ h]

end AnnotatedApi.Yaml
