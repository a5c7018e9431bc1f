import AnnotatedApi.Proofs.Yaml.Literal
import AnnotatedApi.Proofs.Yaml.Quoting
import AnnotatedApi.Proofs.Yaml.Unquoted
import AnnotatedApi.Yaml.Lexer

/-! The steps of a lexer over a written text, and what they leave behind. A column that ends lists and
maps is seen only at the next token, so states are compared by what they are there. -/
namespace AnnotatedApi.Yaml

theorem bind_some_eq_map {α β : Type} (f : α → β) (o : Option α) :
    (o.bind fun a => some (f a)) = o.map f := by
  cases o <;> rfl

/-- What was read so far is these tokens, and none of it can be a key any more. -/
structure Level.Clear (l : Level) (line : Nat) (ts : List Token) : Prop where
  tokens_eq : l.tokens = ts.reverse
  place_lt : ∀ p ∈ l.place, p.required = false ∧ p.line < line

namespace Level

variable {l : Level} {line line' : Nat} {ts : List Token}

theorem clear_before (ts : List Token) (line : Nat) : Clear { before := ts.reverse } line ts where
  tokens_eq := by simp [tokens]
  place_lt := by simp

theorem Clear.settle?_eq (h : l.Clear line ts) : l.settle? = some { before := ts.reverse } := by
  have hplace : l.place.any (·.required) = false := by
    cases hp : l.place with
    | none => rfl
    | some p => exact (h.place_lt p hp).1
  simp [settle?, hplace, h.tokens_eq]

theorem Clear.emit (h : l.Clear line ts) (t : Token) : (l.emit t).Clear line (ts ++ [t]) where
  tokens_eq := by simp [Level.emit, tokens, ← h.tokens_eq]
  place_lt := h.place_lt

theorem Clear.mono (h : l.Clear line ts) (hline : line ≤ line') : l.Clear line' ts where
  tokens_eq := h.tokens_eq
  place_lt p hp := ⟨(h.place_lt p hp).1, Nat.lt_of_lt_of_le (h.place_lt p hp).2 hline⟩

end Level

namespace Lexer

/-- The lexer where its next token starts: blanks are passed, and what ends there is closed. -/
def ready (s : Lexer) : Lexer :=
  let s := s.skip false s.rest
  s.close (s.column < ·)

theorem run?_succ (n : Nat) (s : Lexer) :
    run? (n + 1) s =
      if s.ready.rest.isEmpty then
        if s.ready.inFlow then none
        else (s.ready.close fun _ => true).settle?.map (·.level.tokens.reverse)
      else s.ready.step?.bind (run? n) := rfl

private theorem rest_close (p : Nat → Bool) (s : Lexer) : (s.close p).rest = s.rest := by
  unfold close
  split <;> rfl

private theorem length_rest_skip (inComment : Bool) (s : Lexer) (cs : List Char) :
    (s.skip inComment cs).rest.length ≤ cs.length := by
  induction cs generalizing inComment s with
  | nil => simp [skip]
  | cons c cs ih =>
    rw [skip]
    split
    · exact Nat.le_succ_of_le (ih _ _)
    split
    · exact Nat.le_succ_of_le (ih _ _)
    split
    · exact Nat.le_succ_of_le (ih _ _)
    · simp

theorem length_rest_ready (s : Lexer) : s.ready.rest.length ≤ s.rest.length := by
  rw [ready, rest_close]
  exact length_rest_skip _ _ _

/-- From one state a lexer comes to the other, so that it has the tokens from there if it
has enough fuel. -/
def Leads (s t : Lexer) : Prop :=
  ∀ n, s.ready.rest.length < n → ∃ m, t.ready.rest.length < m ∧ run? n s = run? m t

theorem Leads.trans {s t u : Lexer} (hst : Leads s t) (htu : Leads t u) : Leads s u := by
  intro n hn
  obtain ⟨m, hm, hrun⟩ := hst n hn
  obtain ⟨k, hk, hrun'⟩ := htu m hm
  exact ⟨k, hk, hrun.trans hrun'⟩

theorem leads_of_ready_eq {s t : Lexer} (h : s.ready = t.ready) : Leads s t := by
  intro n hn
  refine ⟨n, h ▸ hn, ?_⟩
  cases n with
  | zero => rfl
  | succ n => rw [run?_succ, run?_succ, h]

theorem leads_of_step {s t : Lexer} (hstep : s.ready.step? = some t)
    (hlen : t.rest.length < s.ready.rest.length) : Leads s t := by
  intro n hn
  obtain ⟨n, rfl⟩ := Nat.exists_eq_add_one_of_ne_zero (by omega : n ≠ 0)
  have hne : s.ready.rest.isEmpty = false := by
    cases h : s.ready.rest <;> simp_all
  refine ⟨n, by have := length_rest_ready t; omega, ?_⟩
  rw [run?_succ, hne, hstep]
  rfl

def here (rest : List Char) (line column : Nat) (indents : List Nat) (mayOpen : Bool) (level : Level) :
    Lexer :=
  ⟨rest, line, column, indents, mayOpen, level, []⟩

section

variable (rest : List Char) (line column : Nat) (indents : List Nat) (mayOpen : Bool) (level : Level)

@[simp] theorem here_rest : (here rest line column indents mayOpen level).rest = rest := rfl

@[simp] theorem here_line : (here rest line column indents mayOpen level).line = line := rfl

@[simp] theorem here_column : (here rest line column indents mayOpen level).column = column := rfl

@[simp] theorem here_indents : (here rest line column indents mayOpen level).indents = indents := rfl

@[simp] theorem here_mayOpen : (here rest line column indents mayOpen level).mayOpen = mayOpen := rfl

@[simp] theorem here_level : (here rest line column indents mayOpen level).level = level := rfl

@[simp] theorem here_inFlow : (here rest line column indents mayOpen level).inFlow = false := rfl

end

/-- What is skipped depends on the text that is given. -/
theorem skip_rest (inComment : Bool) (s : Lexer) (rest cs : List Char) :
    { s with rest }.skip inComment cs = s.skip inComment cs := by
  induction cs generalizing inComment s with
  | nil => rfl
  | cons c cs ih =>
    have hflow : ({ s with rest } : Lexer).inFlow = s.inFlow := rfl
    rw [skip, skip, hflow]
    by_cases hb : isBreak c
    · rw [if_pos hb, if_pos hb]
      exact ih false { s with line := s.line + 1, column := 0, mayOpen := s.mayOpen || !s.inFlow }
    rw [if_neg hb, if_neg hb]
    refine ite_congr rfl (fun _ => ?_) fun _ => ite_congr rfl (fun _ => ?_) fun _ => rfl
    · exact ih inComment { s with column := s.column + 1 }
    · exact ih true { s with column := s.column + 1 }

theorem ready_eq_of_skip_eq {s t : Lexer} (h : s.skip false s.rest = t.skip false t.rest) :
    s.ready = t.ready :=
  congrArg (fun s : Lexer => s.close (s.column < ·)) h

section

variable {cs rest : List Char} {line column c : Nat} {indents : List Nat} {mayOpen : Bool}
  {level : Level}

theorem ready_space :
    (here (' ' :: cs) line column indents mayOpen level).ready =
      (here cs line (column + 1) indents mayOpen level).ready := by
  have hb : isBreak ' ' = false := by decide
  apply ready_eq_of_skip_eq
  rw [here, skip, if_neg (by simp [hb]), if_pos (by simp)]
  exact skip_rest false (here cs line (column + 1) indents mayOpen level) (' ' :: cs) cs

theorem ready_replicate (n : Nat) :
    (here (List.replicate n ' ' ++ cs) line column indents mayOpen level).ready =
      (here cs line (column + n) indents mayOpen level).ready := by
  induction n generalizing column with
  | zero => rfl
  | succ n ih =>
    rw [List.replicate_succ, List.cons_append, ready_space, ih]
    congr 2
    omega

theorem ready_break {b : Char} (hb : isBreak b) :
    (here (b :: cs) line column indents mayOpen level).ready =
      (here cs (line + 1) 0 indents true level).ready := by
  apply ready_eq_of_skip_eq
  rw [here, skip, if_pos hb, inFlow, List.isEmpty_nil, Bool.not_not, Bool.or_true]
  exact skip_rest false (here cs (line + 1) 0 indents true level) (b :: cs) cs

theorem ready_nil :
    (here [] line column indents mayOpen level).ready =
      (here [] line column indents mayOpen level).close (column < ·) := rfl

theorem ready_lead {d : Char} (hd : isLead d) :
    (here (d :: cs) line column indents mayOpen level).ready =
      (here (d :: cs) line column indents mayOpen level).close (column < ·) := by
  obtain ⟨hb, hw, hhash, hmark⟩ := isLead_iff.1 hd
  simp only [isWhite, Bool.or_eq_false_iff, decide_eq_false_iff_not] at hw
  simp [ready, here, skip, hb, hw, hhash, hmark]

theorem close_of_le (h : ∀ i ∈ indents.head?, i ≤ column) :
    (here cs line column indents mayOpen level).close (column < ·) =
      here cs line column indents mayOpen level := by
  cases indents with
  | nil => rfl
  | cons c indents =>
    have hc : ¬ column < c := Nat.not_lt.2 (h c rfl)
    simp [close, here, inFlow, hc]

private theorem close_cons (h : column < c) :
    (here cs line column (c :: indents) mayOpen level).close (column < ·) =
      (here cs line column indents mayOpen (level.emit .blockEnd)).close (column < ·) := by
  simp [close, here, inFlow, h, Level.emit, List.replicate_succ']

theorem ready_of_le {d : Char} (hd : isLead d) (h : ∀ i ∈ indents.head?, i ≤ column) :
    (here (d :: cs) line column indents mayOpen level).ready =
      here (d :: cs) line column indents mayOpen level := by
  rw [ready_lead hd, close_of_le h]

theorem head_le {p : Nat} (h : p < column) (indents : List Nat) :
    ∀ i ∈ (p :: indents).head?, i ≤ column := by
  rintro i ⟨⟩
  exact Nat.le_of_lt h

theorem leads_step {d : Char} {t : Lexer} (hd : isLead d) (h : ∀ i ∈ indents.head?, i ≤ column)
    (hstep : (here (d :: cs) line column indents mayOpen level).step? = some t)
    (hlen : t.rest.length ≤ cs.length) : Leads (here (d :: cs) line column indents mayOpen level) t := by
  apply leads_of_step <;> rw [ready_of_le hd h]
  · exact hstep
  · exact Nat.lt_succ_of_le hlen

/-- Before a line that stands less deep, the innermost list or map is ended. -/
theorem leads_blockEnd {p : Nat} (hpc : p < c) (h : Outdented p rest) :
    Leads (here rest line 0 (c :: indents) true level)
      (here rest line 0 indents true (level.emit .blockEnd)) := by
  apply leads_of_ready_eq
  cases h with
  | nil => rw [ready_nil, ready_nil, close_cons (by omega)]
  | line hq hd =>
    rw [ready_replicate, ready_replicate, ready_lead hd, ready_lead hd, close_cons (by omega)]

end

def columnAfter (column : Nat) (w : List Char) : Nat :=
  w.foldl (fun n c => if isBreak c then 0 else n + 1) column

theorem columnAfter_of_unbroken {w : List Char} (h : ∀ c ∈ w, isBreak c = false) (column : Nat) :
    columnAfter column w = column + w.length := by
  induction w generalizing column with
  | nil => rfl
  | cons c w ih =>
    obtain ⟨hc, hw⟩ := List.forall_mem_cons.1 h
    have := ih hw (column + 1)
    simp only [columnAfter, List.foldl_cons, hc] at this ⊢
    simp only [Bool.false_eq_true, if_false, List.length_cons]
    omega

/-- Only what stands behind the last break counts. -/
theorem columnAfter_append_break {b : Char} (hb : isBreak b) (column : Nat) (w w' : List Char) :
    columnAfter column (w ++ b :: w') = columnAfter 0 w' := by
  simp [columnAfter, hb]

theorem pass_append (w rest : List Char) (line column : Nat) (indents : List Nat) (mayOpen : Bool)
    (level : Level) :
    (here (w ++ rest) line column indents mayOpen level).pass w.length =
      here rest (line + w.countP isBreak) (columnAfter column w) indents mayOpen level := by
  induction w generalizing line column with
  | nil => rfl
  | cons c w ih =>
    have hpass : (here (c :: (w ++ rest)) line column indents mayOpen level).pass (w.length + 1) =
        if isBreak c then (here (w ++ rest) (line + 1) 0 indents mayOpen level).pass w.length
        else (here (w ++ rest) line (column + 1) indents mayOpen level).pass w.length := by
      simp only [here, pass]
    rw [List.cons_append, List.length_cons, hpass]
    by_cases hc : isBreak c
    · rw [if_pos hc, ih, List.countP_cons_of_pos hc, Nat.add_comm (w.countP isBreak), Nat.add_assoc]
      simp [columnAfter, hc]
    · rw [if_neg hc, ih, List.countP_cons_of_neg hc]
      simp [columnAfter, hc]

theorem scalar_append (x : Node) (w rest : List Char) (line column : Nat) (indents : List Nat)
    (mayOpen mayOpen' : Bool) (level : Level) :
    (here (w ++ rest) line column indents mayOpen level).scalar x rest mayOpen' =
      here rest (line + w.countP isBreak) (columnAfter column w) indents mayOpen'
        (level.emit (.scalar x)) := by
  have hlen : (w ++ rest).length - rest.length = w.length := by simp
  have h := pass_append w rest line column indents mayOpen (level.emit (.scalar x))
  simp only [scalar, emit, upTo, here, hlen] at h ⊢
  rw [h]

theorem sign_cons {c : Char} (hc : isBreak c = false) (t : Token) (rest : List Char) (line column : Nat)
    (indents : List Nat) (mayOpen mayOpen' : Bool) (level : Level) :
    (here (c :: rest) line column indents mayOpen level).sign 1 t mayOpen' =
      here rest line (column + 1) indents mayOpen' (level.emit t) := by
  simp [sign, emit, here, pass, hc]

/-- At a column a list or map is opened, unless it is open already. -/
inductive Opening (column : Nat) (t : Token) : List Nat → List Nat → List Token → Prop
  | deeper {indents : List Nat} (h : ∀ i ∈ indents.head?, i < column) :
    Opening column t indents (column :: indents) [t]
  | same (indents : List Nat) : Opening column t (column :: indents) (column :: indents) []

section

variable {column line : Nat} {t : Token} {indents indents' : List Nat} {opened ts : List Token}
  {level : Level}

theorem Opening.head_le (h : Opening column t indents indents' opened) :
    ∀ i ∈ indents.head?, i ≤ column := by
  cases h with
  | same => simp
  | deeper h => exact fun i hi => Nat.le_of_lt (h i hi)

theorem isDeeper_eq_true (h : ∀ i ∈ indents.head?, i < column) {rest : List Char} {column' : Nat}
    {mayOpen : Bool} : (here rest line column' indents mayOpen level).isDeeper column = true := by
  cases indents <;> simp_all [isDeeper, here, inFlow]

theorem isDeeper_eq_false {rest : List Char} {column' : Nat} {mayOpen : Bool} :
    (here rest line column' (column :: indents) mayOpen level).isDeeper column = false := by
  simp [isDeeper, here]

theorem Opening.open?_eq (h : Opening column t indents indents' opened) (hl : level.Clear line ts)
    (rest : List Char) :
    ∃ level', (here rest line column indents true level).open? t =
      some (here rest line column indents' true level') ∧ level'.Clear line (ts ++ opened) := by
  cases h with
  | deeper h =>
    refine ⟨level.emit t, ?_, hl.emit t⟩
    simp only [open?, here_inFlow, here_mayOpen, here_column, isDeeper_eq_true h]
    rfl
  | same indents =>
    refine ⟨level, ?_, by simpa using hl⟩
    simp only [open?, here_inFlow, here_mayOpen, here_column, isDeeper_eq_false]
    rfl

theorem settle?_eq (hl : level.Clear line ts) (rest : List Char) (column : Nat) (indents : List Nat)
    (mayOpen : Bool) :
    (here rest line column indents mayOpen level).settle? =
      some (here rest line column indents mayOpen { before := ts.reverse }) := by
  simp [settle?, here, hl.settle?_eq]

/-- A sign that opens a list or map at its column. -/
theorem leads_open {c : Char} {t' : Token} {rest : List Char} (hc : isLead c)
    (hstep : (here (c :: ' ' :: rest) line column indents true level).step? =
      ((here (c :: ' ' :: rest) line column indents true level).open? t).bind fun s =>
        s.settle?.map fun s => s.sign 1 t' !s.inFlow)
    (h : Opening column t indents indents' opened) (hl : level.Clear line ts) :
    ∃ level', level'.Clear line (ts ++ opened ++ [t']) ∧
      Leads (here (c :: ' ' :: rest) line column indents true level)
        (here rest line (column + 2) indents' true level') := by
  obtain ⟨level', hopen, hl'⟩ := h.open?_eq hl (c :: ' ' :: rest)
  refine ⟨_, (Level.clear_before (ts ++ opened) line).emit t', ?_⟩
  have hsign : (here (c :: ' ' :: rest) line column indents true level).step? =
      some (here (' ' :: rest) line (column + 1) indents' true
        (Level.emit t' { before := (ts ++ opened).reverse })) := by
    rw [hstep, hopen, Option.bind_some, settle?_eq hl', Option.map_some, sign_cons (isLead_iff.1 hc).1]
    rfl
  exact (leads_step hc h.head_le hsign (by simp)).trans (leads_of_ready_eq ready_space)

theorem leads_entry (h : Opening column .blockList indents indents' opened) (hl : level.Clear line ts)
    (rest : List Char) :
    ∃ level', level'.Clear line (ts ++ opened ++ [.entry]) ∧
      Leads (here ('-' :: ' ' :: rest) line column indents true level)
        (here rest line (column + 2) indents' true level') := by
  refine leads_open (by decide) ?_ h hl
  have hgap : startsWithGap (' ' :: rest) = true := rfl
  obtain ⟨level', hopen, hl'⟩ := h.open?_eq hl ('-' :: ' ' :: rest)
  simp [step?, hasMark, startMark, endMark, hgap, hopen, settle?_eq hl']

theorem leads_explicit_key (h : Opening column .blockMap indents indents' opened)
    (hl : level.Clear line ts) (rest : List Char) :
    ∃ level', level'.Clear line (ts ++ opened ++ [.key]) ∧
      Leads (here ('?' :: ' ' :: rest) line column indents true level)
        (here rest line (column + 2) indents' true level') := by
  refine leads_open (by decide) ?_ h hl
  have hgap : startsWithGap (' ' :: rest) = true := rfl
  simp [step?, hasMark, startMark, endMark, hgap, bind_some_eq_map]

/-- A colon at the column of its map, on a line after that of the key. -/
theorem leads_explicit_value (hl : level.Clear line ts) (rest : List Char) :
    ∃ level', level'.Clear line (ts ++ [.value]) ∧
      Leads (here (':' :: ' ' :: rest) line column (column :: indents) true level)
        (here rest line (column + 2) (column :: indents) true level') := by
  have hgap : startsWithGap (' ' :: rest) = true := rfl
  have hplace :
      level.place.filter (here (':' :: ' ' :: rest) line column (column :: indents) true level).reaches =
        none := by
    rw [Option.filter_eq_none_iff]
    intro p hp
    have := (hl.place_lt p hp).2
    simp [reaches, Nat.ne_of_lt this]
  refine ⟨_, (Level.clear_before ts line).emit .value, ?_⟩
  have hsign : (here (':' :: ' ' :: rest) line column (column :: indents) true level).step? =
      some (here (' ' :: rest) line (column + 1) (column :: indents) true
        (Level.emit .value { before := ts.reverse })) := by
    simp [step?, hasMark, startMark, endMark, hgap, value?, hplace, settle?_eq hl, open?,
      isDeeper_eq_false, sign_cons (by decide : isBreak ':' = false)]
  exact (leads_step (by decide) (by simp) hsign (by simp)).trans (leads_of_ready_eq ready_space)

end

end Lexer

end AnnotatedApi.Yaml
