import AnnotatedApi.Proofs.Yaml.Lexing

/-! The tokens of scalars, of empty brackets and of keys, each taken in by one step or two. -/
namespace AnnotatedApi.Yaml

open Lexer

/-- The lexer comes to the start of a line, and then has read these tokens. -/
inductive Lexer.ComesTo (s : Lexer) (rest : List Char) (indents : List Nat) (ts : List Token) : Prop
  | intro {line : Nat} {level : Level} (clear : level.Clear line ts)
    (leads : Leads s (here rest line 0 indents true level))

section

variable {s t : Lexer} {rest rest' : List Char} {indents indents' : List Nat} {ts ts' : List Token}

theorem Lexer.Leads.comesTo (h : Leads s t) (ht : t.ComesTo rest indents ts) :
    s.ComesTo rest indents ts := by
  obtain ⟨hl, hleads⟩ := ht
  exact ⟨hl, h.trans hleads⟩

theorem Lexer.ComesTo.andThen (h : s.ComesTo rest indents ts)
    (h' : ∀ {line level}, Level.Clear level line ts →
      ComesTo (here rest line 0 indents true level) rest' indents' ts') :
    s.ComesTo rest' indents' ts' := by
  obtain ⟨hl, hleads⟩ := h
  exact hleads.comesTo (h' hl)

end

/-- Behind column `p` of what it belongs to, a text has these tokens, and the lexer goes
on at the line below. -/
def Scans (p column : Nat) (mayOpen : Bool) (text : List Char) (ts : List Token) : Prop :=
  ∀ ⦃line : Nat⦄ ⦃indents : List Nat⦄ ⦃level : Level⦄ ⦃before : List Token⦄ ⦃tail : List Char⦄,
    level.Clear line before → Outdented p tail →
    ComesTo (here (text ++ tail) line column (p :: indents) mayOpen level) tail (p :: indents)
      (before ++ ts)

namespace Lexer

variable {line column p : Nat} {indents : List Nat} {mayOpen : Bool} {level : Level} {ts : List Token}
  {w cs tail : List Char} {x : Node}

theorem mark?_eq (hl : level.Clear line ts) (rest : List Char) (column : Nat) (indents : List Nat) :
    (here rest line column indents true level).mark? =
      some (here rest line column indents true
        { before := ts.reverse, place := some ⟨line, column, indents.head? = some column⟩ }) := by
  rw [mark?, here_mayOpen, if_pos rfl, settle?_eq hl]
  rfl

/-- A scalar behind the column of its parent may be a key of a new map, but need not be one. -/
theorem exists_mark?_eq (hl : level.Clear line ts) (hp : p < column) (indents : List Nat)
    (mayOpen : Bool) (rest : List Char) :
    ∃ level', (here rest line column (p :: indents) mayOpen level).mark? =
        some (here rest line column (p :: indents) mayOpen level') ∧ level'.Clear (line + 1) ts := by
  cases mayOpen with
  | false => exact ⟨level, rfl, hl.mono (Nat.le_succ line)⟩
  | true =>
    exact ⟨_, mark?_eq hl rest column (p :: indents), by simp [Level.tokens], by simp [Nat.ne_of_lt hp]⟩

theorem step?_quote {q : Char} (hq : q = '\'' ∨ q = '"') :
    (here (q :: cs) line column indents mayOpen level).step? =
      (here (q :: cs) line column indents mayOpen level).mark?.bind fun s =>
        (quoted? s.rest).map fun (x, rest) => s.scalar x rest false := by
  rcases hq with rfl | rfl <;>
    simp [step?, hasMark, startMark, endMark, bind_some_eq_map]

theorem step?_plain {c e : Char} (h : IsPlain (c :: w)) (he : e ∉ ['-', '.']) :
    (here (c :: (w ++ e :: cs)) line column indents mayOpen level).step? =
      (here (c :: (w ++ e :: cs)) line column indents mayOpen level).mark?.bind fun s =>
        (unquoted? s.inFlow (s.indents.head?.elim 0 (· + 1)) s.column [] s.rest).map fun u =>
          s.scalar u.node u.rest u.broken := by
  have hbound := h.atBound_eq_false he cs
  have hgap (hc : c ∈ ['-', '?', ':']) := h.startsWithGap_eq_false hc (e :: cs)
  have hind := h.not_mem_indicators
  have hplain := h.startsPlain (e :: cs)
  simp only [atBound, Bool.or_eq_false_iff, List.cons_append] at hbound
  simp only [indicators, List.mem_cons, List.not_mem_nil, or_false, not_or] at hind
  have hdash : (c = '-' && startsWithGap (w ++ e :: cs)) = false := by
    by_cases hc : c = '-' <;> simp [hc, hgap]
  have hquery : (c = '?' && startsWithGap (w ++ e :: cs)) = false := by
    by_cases hc : c = '?' <;> simp [hc, hgap]
  have hcolon : (c = ':' && startsWithGap (w ++ e :: cs)) = false := by
    by_cases hc : c = ':' <;> simp [hc, hgap]
  simp [step?, hbound, hind, hdash, hquery, hcolon, hplain, bind_some_eq_map]

private theorem ready_dropWhile (cs : List Char) :
    (here cs line column indents mayOpen level).ready =
      (here (cs.dropWhile isSpace) line (column + (cs.takeWhile isSpace).length) indents mayOpen
        level).ready := by
  have htake : cs.takeWhile isSpace = List.replicate (cs.takeWhile isSpace).length ' ' :=
    List.eq_replicate_of_mem fun _ => eq_of_mem_takeWhile
  conv => lhs; rw [← List.takeWhile_append_dropWhile (p := isSpace) (l := cs), htake]
  exact ready_replicate _

end Lexer

section

variable {column p : Nat} {mayOpen : Bool} {w cs : List Char} {x : Node}

theorem scans_quoted {q : Char} (hq : q = '\'' ∨ q = '"')
    (hx : ∀ tail, quoted? (q :: (w ++ '\n' :: tail)) = some (x, '\n' :: tail)) (hp : p < column) :
    Scans p column mayOpen (q :: w ++ ['\n']) [.scalar x] := by
  intro line indents level before tail hl _
  obtain ⟨level', hmark, hl'⟩ := exists_mark?_eq hl hp indents mayOpen (q :: (w ++ '\n' :: tail))
  have hlead : isLead q := by rcases hq with rfl | rfl <;> decide
  refine ⟨(hl'.mono (by omega : line + 1 ≤ line + (q :: w).countP isBreak + 1)).emit (.scalar x), ?_⟩
  have hstep : (here (q :: (w ++ '\n' :: tail)) line column (p :: indents) mayOpen level).step? =
      some (here ('\n' :: tail) (line + (q :: w).countP isBreak) (columnAfter column (q :: w))
        (p :: indents) false (level'.emit (.scalar x))) := by
    rw [step?_quote hq, hmark, Option.bind_some, here_rest, hx, Option.map_some]
    exact congrArg some
      (scalar_append x (q :: w) ('\n' :: tail) line column (p :: indents) mayOpen false level')
  rw [List.append_assoc, List.singleton_append, List.cons_append]
  exact (leads_step hlead (head_le hp indents) hstep (by simp)).trans
    (leads_of_ready_eq (ready_break (by decide)))

/-- A plain scalar. The blanks of the line below are passed with it. -/
theorem scans_plain (h : IsPlain w) (hp : p < column) :
    Scans p column mayOpen (w ++ ['\n']) [.scalar (.plain (String.ofList w))] := by
  intro line indents level before tail hl htail
  obtain ⟨c, w, rfl⟩ := List.exists_cons_of_ne_nil h.ne_nil
  obtain ⟨level', hmark, hl'⟩ := exists_mark?_eq hl hp indents mayOpen (c :: (w ++ '\n' :: tail))
  have hread := h.unquoted? (by omega : p + 1 ≤ column + 1) (htail.unquoted? (by decide : isBreak '\n'))
  generalize hpassed : c :: w ++ '\n' :: tail.takeWhile isSpace = passed
  have htext : c :: (w ++ '\n' :: tail) = passed ++ tail.dropWhile isSpace := by
    simp [← hpassed, List.takeWhile_append_dropWhile]
  have hstep : (here (c :: (w ++ '\n' :: tail)) line column (p :: indents) mayOpen level).step? =
      some (here (tail.dropWhile isSpace) (line + passed.countP isBreak) (columnAfter column passed)
        (p :: indents) true (level'.emit (.scalar (.plain (String.ofList (c :: w)))))) := by
    rw [step?_plain h (by decide), hmark, Option.bind_some, here_inFlow, here_indents, here_column,
      here_rest]
    simp only [List.head?_cons, Option.elim_some]
    rw [← List.cons_append, hread, Option.map_some, h.node_eq, List.cons_append, htext, scalar_append]
  have hline : line + 1 ≤ line + passed.countP isBreak :=
    Nat.add_le_add_left (List.countP_pos_iff.2 ⟨'\n', by simp [← hpassed], by decide⟩) line
  have hcolumn : columnAfter column passed = (tail.takeWhile isSpace).length := by
    have hunbroken : ∀ d ∈ tail.takeWhile isSpace, isBreak d = false := fun d hd => by
      rw [eq_of_mem_takeWhile hd]
      decide
    rw [← hpassed, columnAfter_append_break (by decide), columnAfter_of_unbroken hunbroken, Nat.zero_add]
  refine ⟨(hl'.mono hline).emit _, ?_⟩
  rw [List.append_assoc, List.singleton_append, List.cons_append]
  refine (leads_step h.isLead (head_le hp indents) hstep ?_).trans (leads_of_ready_eq ?_)
  · have := (List.dropWhile_suffix isSpace (l := tail)).length_le
    rw [here_rest, List.length_append, List.length_cons]
    omega
  · rw [ready_dropWhile tail, Nat.zero_add, hcolumn]

private theorem exists_atColumn_eq_append_break {ls : List Line} (hne : ls ≠ []) (h : ∀ l ∈ ls, l.Proper)
    (column : Nat) : ∃ u b, atColumn column ls = u ++ [b] ∧ isBreak b := by
  rcases List.eq_nil_or_concat ls with rfl | ⟨ls, l, rfl⟩
  · exact absurd rfl hne
  · rw [List.concat_eq_append] at h ⊢
    exact ⟨atColumn column ls ++ l.textAt column, l.ending, by simp [atColumn], (h l (by simp)).ending⟩

theorem scans_literal (hne : cs ≠ []) (h : allowsLiteral cs) (hp : p < column) :
    Scans p column mayOpen ('|' :: literalHints cs ++ '\n' :: atColumn (p + 2) (brokenLines cs))
      [.scalar (.text (String.ofList cs))] := by
  intro line indents level before tail hl htail
  have hread := block?_literalHints hne h htail
  obtain ⟨u, b, hu, hb⟩ :=
    exists_atColumn_eq_append_break (brokenLines_ne_nil hne) (proper_of_mem_brokenLines cs) (p + 2)
  generalize hblock : literalHints cs ++ '\n' :: atColumn (p + 2) (brokenLines cs) = block
  have hstep : (here ('|' :: (block ++ tail)) line column (p :: indents) mayOpen level).step? =
      some (here tail (line + ('|' :: block).countP isBreak) 0 (p :: indents) true
        (Level.emit (.scalar (.text (String.ofList cs))) { before := before.reverse })) := by
    have hcolumn : columnAfter column ('|' :: block) = 0 := by
      have : '|' :: block = ('|' :: literalHints cs ++ '\n' :: u) ++ b :: [] := by simp [← hblock, hu]
      rw [this, columnAfter_append_break hb]
      rfl
    have hscalar := scalar_append (.text (String.ofList cs)) ('|' :: block) tail line column
      (p :: indents) mayOpen true { before := before.reverse }
    rw [hcolumn, List.cons_append] at hscalar
    have hread : block? true (some p) (block ++ tail) = some (.text (String.ofList cs), tail) := by
      simpa [← hblock] using hread
    simp [step?, hasMark, startMark, endMark, settle?_eq hl, hread, hscalar]
  refine ⟨(Level.clear_before before (line + ('|' :: block).countP isBreak)).emit _, ?_⟩
  rw [List.cons_append, hblock, List.cons_append]
  exact leads_step (by decide) (head_le hp indents) hstep (by simp)

theorem scans_brackets {o c : Char} {t t' : Token}
    (h : o = '[' ∧ c = ']' ∧ t = .openList ∧ t' = .closeList ∨
      o = '{' ∧ c = '}' ∧ t = .openMap ∧ t' = .closeMap)
    (hp : p < column) : Scans p column mayOpen [o, c, '\n'] [t, t'] := by
  intro line indents level before tail hl _
  obtain ⟨level', hmark, hl'⟩ := exists_mark?_eq hl hp indents mayOpen (o :: c :: '\n' :: tail)
  have ho : isLead o := by rcases h with ⟨rfl, -⟩ | ⟨rfl, -⟩ <;> decide
  have hc : isLead c := by rcases h with ⟨-, rfl, -⟩ | ⟨-, rfl, -⟩ <;> decide
  -- Between the brackets nothing is closed by its column.
  let inside : Lexer := ⟨c :: '\n' :: tail, line, column + 1, p :: indents, true, {}, [level'.emit t]⟩
  have henter : (here (o :: c :: '\n' :: tail) line column (p :: indents) mayOpen level).step? =
      some inside := by
    have henter : (here (o :: c :: '\n' :: tail) line column (p :: indents) mayOpen level).enter? t =
        some inside := by
      rw [enter?, hmark, Option.map_some, sign_cons (isLead_iff.1 ho).1]
      rfl
    rcases h with ⟨rfl, rfl, rfl, rfl⟩ | ⟨rfl, rfl, rfl, rfl⟩ <;>
      simpa [step?, hasMark, startMark, endMark] using henter
  have hleave : inside.step? =
      some (here ('\n' :: tail) line (column + 2) (p :: indents) false ((level'.emit t).emit t')) := by
    have hleave : inside.leave? t' = some (here ('\n' :: tail) line (column + 2) (p :: indents) false
        ((level'.emit t).emit t')) :=
      congrArg some (sign_cons (isLead_iff.1 hc).1 t' ('\n' :: tail) line (column + 1) (p :: indents)
        true false (level'.emit t))
    rcases h with ⟨rfl, rfl, rfl, rfl⟩ | ⟨rfl, rfl, rfl, rfl⟩ <;>
      simpa [step?, hasMark, startMark, endMark, inside] using hleave
  have hready : inside.ready = inside := by
    obtain ⟨hb, hw, hhash, hmark⟩ := isLead_iff.1 hc
    simp only [isWhite, Bool.or_eq_false_iff, decide_eq_false_iff_not] at hw
    simp [ready, inside, skip, close, inFlow, hb, hw, hhash, hmark]
  have hclear := (hl'.emit t).emit t'
  rw [List.append_assoc, List.singleton_append] at hclear
  refine ⟨hclear, ?_⟩
  have hin : Leads (here (o :: c :: '\n' :: tail) line column (p :: indents) mayOpen level) inside :=
    leads_step ho (head_le hp indents) henter (by simp [inside])
  have hout : Leads inside (here ('\n' :: tail) line (column + 2) (p :: indents) false
      ((level'.emit t).emit t')) :=
    leads_of_step (by rw [hready, hleave]) (by simp [hready, inside])
  exact (hin.trans hout).trans (leads_of_ready_eq (ready_break (by decide)))

def scalarNode (s : String) : Node := if style s = .plain then .plain s else .text s

variable {s : String}

theorem resolve_of_not_isAmbiguous {s : String} (h : isAmbiguous s = false) : resolve s = .text := by
  rw [isAmbiguous, Bool.or_eq_false_iff] at h
  have := h.2
  split at this
  next hs => exact hs
  · cases this

theorem style_spec (s : String) :
    match style s with
    | .plain => IsPlain s.toList ∧ resolve s = .text
    | .single => '\n' ∉ s.toList ∧ allowsSingle s.toList
    | .double => True
    | .literal => '\n' ∈ s.toList ∧ allowsLiteral s.toList := by
  fun_cases style s with
  | case1 cs hn h => exact ⟨hn, h⟩
  | case2 => trivial
  | case3 cs hn h =>
    rw [Bool.and_eq_true, Bool.not_eq_true'] at h
    have htext := resolve_of_not_isAmbiguous h.1
    refine ⟨isPlain_of_allowsPlain (fun hnil => ?_) h.2, htext⟩
    -- The empty text is none: it stands for null.
    have : s = "" := by simpa [cs] using hnil
    subst this
    simp [resolve, nullWords] at htext
  | case4 cs hn _ h => exact ⟨hn, h⟩
  | case5 => trivial

theorem scans_scalarLines (hp : p < column) :
    Scans p column mayOpen (hanging (p + 2) (scalarLines s)) [.scalar (scalarNode s)] := by
  have hstyle := style_spec s
  unfold scalarLines scalarNode
  cases h : style s with
  | plain =>
    rw [h] at hstyle
    simpa [hanging, Line.chars] using scans_plain hstyle.1 hp
  | single =>
    rw [h] at hstyle
    have hread (tail : List Char) :
        quoted? ('\'' :: (spread (p + 2) (doubled s.toList) ++ ['\''] ++ '\n' :: tail)) =
          some (.text s, '\n' :: tail) := by
      simpa using quoted?_single (Nat.succ_pos (p + 1)) hstyle.2 hstyle.1
        (by simp : ('\n' :: tail).head? ≠ some '\'')
    have hspread : hanging (p + 2) (brokenLines ('\'' :: doubled s.toList ++ ['\''])) =
        '\'' :: (spread (p + 2) (doubled s.toList) ++ ['\'']) ++ ['\n'] := by
      rw [hanging_brokenLines_append (by decide)]
      simp [spread, isBreak]
    exact hspread ▸ scans_quoted (.inl rfl) hread hp
  | double =>
    have hread (tail : List Char) :
        quoted? ('"' :: (s.toList.flatMap escape ++ ['"'] ++ '\n' :: tail)) =
          some (.text s, '\n' :: tail) := by
      simpa using quoted?_double s.toList ('\n' :: tail)
    simpa [hanging, Line.chars] using scans_quoted (.inr rfl) hread hp
  | literal =>
    rw [h] at hstyle
    simpa [hanging, Line.chars] using scans_literal (List.ne_nil_of_mem hstyle.1) hstyle.2 hp

end

private theorem length_le_size_utf8Encode (cs : List Char) : cs.length ≤ cs.utf8Encode.size := by
  induction cs with
  | nil => simp
  | cons c cs ih =>
    have := c.utf8Size_pos
    rw [List.utf8Encode_cons, ByteArray.size_append, List.utf8Encode_singleton, List.size_toByteArray,
      String.length_utf8EncodeChar, List.length_cons]
    omega

theorem length_flatMap_le {f : Char → List Char} {n : Nat} (h : ∀ c, (f c).length ≤ n) (cs : List Char) :
    (cs.flatMap f).length ≤ n * cs.length := by
  induction cs with
  | nil => simp
  | cons c cs ih =>
    have := h c
    rw [List.flatMap_cons, List.length_append, List.length_cons, Nat.mul_succ]
    omega

private theorem length_doubled_le (cs : List Char) : (doubled cs).length ≤ 2 * cs.length :=
  length_flatMap_le (fun c => by split <;> simp) cs

theorem brokenLines_of_unbroken {cs : List Char} (hne : cs ≠ []) (h : ∀ c ∈ cs, isBreak c = false) :
    brokenLines cs = [⟨cs, '\n'⟩] := by
  induction cs with
  | nil => exact absurd rfl hne
  | cons c cs ih =>
    obtain ⟨hc, hcs⟩ := List.forall_mem_cons.1 h
    cases cs with
    | nil => exact brokenLines_singleton hc
    | cons d cs => exact brokenLines_cons hc (ih (by simp) hcs)

private theorem spread_of_unbroken {cs : List Char} (h : ∀ c ∈ cs, isBreak c = false) (column : Nat) :
    spread column cs = cs := by
  induction cs with
  | nil => rfl
  | cons c cs ih =>
    obtain ⟨hc, hcs⟩ := List.forall_mem_cons.1 h
    simp [spread, hc, ih hcs]

/-- A text that a colon can follow on its line, so that it is read as a key there. -/
structure IsKeyText (t : List Char) (x : Node) : Prop where
  length_le : t.length ≤ 1024
  isLead_head : ∃ d w, t = d :: w ∧ isLead d
  step?_eq : ∀ {line column : Nat} {indents : List Nat} {level : Level} {ts : List Token}
    {cs : List Char}, level.Clear line ts → (∀ i ∈ indents.head?, i ≤ column) → startsWithGap cs →
    (here (t ++ ':' :: cs) line column indents true level).step? =
      some (here (':' :: cs) line (column + t.length) indents false
        (Level.emit (.scalar x)
          { before := ts.reverse, place := some ⟨line, column, indents.head? = some column⟩ }))

theorem scalar_of_unbroken {w : List Char} (h : ∀ c ∈ w, isBreak c = false) (x : Node) (rest : List Char)
    (line column : Nat) (indents : List Nat) (mayOpen mayOpen' : Bool) (level : Level) :
    (here (w ++ rest) line column indents mayOpen level).scalar x rest mayOpen' =
      here rest line (column + w.length) indents mayOpen' (level.emit (.scalar x)) := by
  have hcount : w.countP isBreak = 0 := List.countP_eq_zero.2 fun c hc => by simp [h c hc]
  rw [scalar_append, hcount, columnAfter_of_unbroken h, Nat.add_zero]

theorem isKeyText_plain {w : List Char} (h : IsPlain w) (hlen : w.length ≤ 1024) :
    IsKeyText w (.plain (String.ofList w)) where
  length_le := hlen
  isLead_head := by
    obtain ⟨c, w, rfl⟩ := List.exists_cons_of_ne_nil h.ne_nil
    exact ⟨c, w, rfl, h.isLead⟩
  step?_eq {line column indents level ts cs} hl hi hgap := by
    obtain ⟨c, w, rfl⟩ := List.exists_cons_of_ne_nil h.ne_nil
    have hindent : indents.head?.elim 0 (· + 1) ≤ column + 1 := by
      cases hh : indents.head? with
      | none => simp
      | some i => simpa using hi i hh
    have hread := h.unquoted? hindent (unquoted?_colon hgap)
    rw [List.cons_append, step?_plain h (by decide), mark?_eq hl, Option.bind_some, here_inFlow,
      here_indents, here_column, here_rest, ← List.cons_append, hread, Option.map_some, h.node_eq,
      scalar_of_unbroken h.unbroken]

theorem isKeyText_quoted {q : Char} {w : List Char} {x : Node} (hq : q = '\'' ∨ q = '"')
    (hx : ∀ cs, quoted? (q :: (w ++ ':' :: cs)) = some (x, ':' :: cs)) (hw : ∀ c ∈ w, isBreak c = false)
    (hlen : w.length < 1024) : IsKeyText (q :: w) x where
  length_le := hlen
  isLead_head := ⟨q, w, rfl, by rcases hq with rfl | rfl <;> decide⟩
  step?_eq {line column indents level ts cs} hl hi hgap := by
    have hqw : ∀ c ∈ q :: w, isBreak c = false :=
      List.forall_mem_cons.2 ⟨by rcases hq with rfl | rfl <;> decide, hw⟩
    rw [List.cons_append, step?_quote hq, mark?_eq hl, Option.bind_some, here_rest, hx, Option.map_some]
    exact congrArg some (scalar_of_unbroken hqw x (':' :: cs) line column indents true false _)

theorem isKeyText_keyText {k : String} (hk : isSimpleKey k) : IsKeyText (keyText k) (scalarNode k) := by
  simp only [isSimpleKey, Bool.and_eq_true, Bool.not_eq_true', decide_eq_true_eq,
    List.any_eq_false] at hk
  have hunbroken : ∀ c ∈ k.toList, isBreak c = false := by simpa using hk.1
  have hdoubled : ∀ c ∈ doubled k.toList, isBreak c = false :=
    fun c hc => hunbroken c (mem_of_mem_doubled hc)
  have hlen : k.toList.length ≤ 128 := by
    have := length_le_size_utf8Encode k.toList
    rw [String.utf8Encode_toList] at this
    exact Nat.le_trans this hk.2
  have hstyle := style_spec k
  unfold keyText scalarLines scalarNode
  cases h : style k with
  | plain =>
    rw [h] at hstyle
    simpa using isKeyText_plain hstyle.1 (by omega)
  | single =>
    rw [h] at hstyle
    have hread (cs : List Char) : quoted? ('\'' :: (doubled k.toList ++ ['\''] ++ ':' :: cs)) =
        some (.text k, ':' :: cs) := by
      simpa [spread_of_unbroken hdoubled] using
        quoted?_single Nat.one_pos hstyle.2 hstyle.1 (by simp : (':' :: cs).head? ≠ some '\'')
    have hquoted : ∀ c ∈ doubled k.toList ++ ['\''], isBreak c = false := by
      simpa [or_imp, forall_and] using ⟨hdoubled, by decide⟩
    have hbroken : brokenLines ('\'' :: doubled k.toList ++ ['\'']) =
        [⟨'\'' :: (doubled k.toList ++ ['\'']), '\n'⟩] :=
      brokenLines_of_unbroken (by simp) (List.forall_mem_cons.2 ⟨by decide, hquoted⟩)
    have hlen : (doubled k.toList ++ ['\'']).length < 1024 := by
      have := length_doubled_le k.toList
      rw [List.length_append, List.length_singleton]
      omega
    show IsKeyText ((brokenLines ('\'' :: doubled k.toList ++ ['\''])).flatMap (·.text)) (.text k)
    rw [hbroken, List.flatMap_singleton]
    exact isKeyText_quoted (.inl rfl) hread hquoted hlen
  | double =>
    have hread (cs : List Char) : quoted? ('"' :: (k.toList.flatMap escape ++ ['"'] ++ ':' :: cs)) =
        some (.text k, ':' :: cs) := by
      simpa using quoted?_double k.toList (':' :: cs)
    have hquoted : ∀ c ∈ k.toList.flatMap escape ++ ['"'], isBreak c = false := by
      intro c hc
      rcases List.mem_append.1 hc with hc | hc
      · obtain ⟨d, -, hc⟩ := List.mem_flatMap.1 hc
        exact (isShown_iff.1 (isShown_of_mem_escape hc)).2
      · rw [List.mem_singleton.1 hc]
        decide
    have hlen : (k.toList.flatMap escape ++ ['"']).length < 1024 := by
      have := length_flatMap_le length_escape_le k.toList
      rw [List.length_append, List.length_singleton]
      omega
    simpa using isKeyText_quoted (.inr rfl) hread hquoted hlen
  | literal =>
    rw [h] at hstyle
    exact absurd (hunbroken '\n' hstyle.1) (by decide)

section

variable {t cs : List Char} {x : Node} {line column column' : Nat} {indents indents' : List Nat}
  {level : Level} {ts opened : List Token}

/-- The colon behind a scalar shows that it was a key, and where the map with it opened. -/
theorem step?_colon (h : Opening column .blockMap indents indents' opened) (hgap : startsWithGap cs)
    (hle : column' ≤ column + 1024) (x : Node) (line : Nat) (required : Bool)
    (ts : List Token) :
    (here (':' :: cs) line column' indents false
        (Level.emit (.scalar x)
          { before := ts.reverse, place := some ⟨line, column, required⟩ })).step? =
      some (here cs line (column' + 1) indents' false
        (Level.emit .value { before := (ts ++ opened ++ [Token.key, Token.scalar x]).reverse })) := by
  have hbefore : (ts ++ opened ++ [Token.key, Token.scalar x]).reverse =
      [Token.scalar x] ++ (.key :: opened.reverse) ++ ts.reverse := by simp
  have hb : isBreak ':' = false := by decide
  generalize hs : here (':' :: cs) line column' indents false
    (Level.emit (.scalar x) { before := ts.reverse, place := some ⟨line, column, required⟩ }) = s
  have hstep : s.step? = s.value? := by
    simp [← hs, step?, hasMark, startMark, endMark, hgap]
  have hplace : s.level.place.filter s.reaches = some ⟨line, column, required⟩ := by
    simp [← hs, Level.emit, reaches, hle]
  rw [hstep, value?, hplace, hbefore, ← hs]
  cases h with
  | deeper h =>
    simp only [isDeeper_eq_true h, if_true]
    exact congrArg some (sign_cons hb .value cs line column' (column :: indents) false false _)
  | same indents =>
    simp only [isDeeper_eq_false, Bool.false_eq_true, if_false]
    exact congrArg some (sign_cons hb .value cs line column' (column :: indents) false false _)

/-- A key opens a map at its column, and stands in it together with the colon behind it. -/
theorem IsKeyText.leads (ht : IsKeyText t x) (h : Opening column .blockMap indents indents' opened)
    (hl : level.Clear line ts) (hgap : startsWithGap cs) :
    ∃ column' level', column < column' ∧ level'.Clear line (ts ++ opened ++ [.key, .scalar x, .value]) ∧
      Leads (here (t ++ ':' :: cs) line column indents true level)
        (here cs line column' indents' false level') := by
  have hkey := ht.step?_eq hl h.head_le hgap
  obtain ⟨d, w, rfl, hd⟩ := ht.isLead_head
  have hpos : column < column + (d :: w).length := by simp
  have hcolon :=
    step?_colon h hgap (Nat.add_le_add_left ht.length_le column) x line (indents.head? = some column) ts
  refine ⟨column + (d :: w).length + 1, _, by omega, ?_,
    (leads_step hd h.head_le hkey (by simp)).trans
      (leads_step (by decide) (fun i hi => ?_) hcolon (by simp))⟩
  · have := (Level.clear_before (ts ++ opened ++ [Token.key, .scalar x]) line).emit .value
    rwa [List.append_assoc (ts ++ opened)] at this
  · exact Nat.le_of_lt (Nat.lt_of_le_of_lt (h.head_le i hi) hpos)

end

end AnnotatedApi.Yaml
