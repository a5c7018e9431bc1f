import AnnotatedApi.Proofs.Json.Nesting
import AnnotatedApi.Proofs.Yaml.ScalarTokens

/-! The tokens of a value that is written. Main statement: a text of an object with members has the
tokens of that object, whatever its strings are. -/
namespace AnnotatedApi.Yaml

open Json Lexer

mutual

/-- The tokens of a value. Behind a key on its line, a list stands at the column of that key and has no
tokens around its elements. -/
def tokens (behindKey : Bool) : Json → List Token
  | null => [.scalar (.plain "null")]
  | Json.bool b => [.scalar (.plain (if b then "true" else "false"))]
  | num n => [.scalar (.plain (n.toText Number.yamlLayout))]
  | str s => [.scalar (scalarNode s)]
  | arr xs =>
    if xs.isEmpty then [.openList, .closeList]
    else if behindKey then itemTokens xs
    else .blockList :: itemTokens xs ++ [.blockEnd]
  | obj ms => if ms.isEmpty then [.openMap, .closeMap] else .blockMap :: memberTokens ms ++ [.blockEnd]

def itemTokens : List Json → List Token
  | [] => []
  | x :: xs => .entry :: tokens false x ++ itemTokens xs

def memberTokens : List (String × Json) → List Token
  | [] => []
  | (k, v) :: ms =>
    .key :: .scalar (scalarNode k) :: .value :: tokens (isSimpleKey k) v ++ memberTokens ms

end

/-- The text of a value has its tokens, behind a sign on its line and behind a key. -/
structure Lexes (v : Json) : Prop where
  hanging (p : Nat) : Scans p (p + 2) true (hanging (p + 2) (lines v)) (tokens false v)
  afterColon {p column : Nat} (h : p < column) : Scans p column false (afterColon p v) (tokens true v)

section

variable {p column : Nat} {mayOpen : Bool} {text : List Char} {ts : List Token}

theorem Scans.space (h : Scans p (column + 1) mayOpen text ts) :
    Scans p column mayOpen (' ' :: text) ts := by
  intro line indents level before tail hl htail
  exact (leads_of_ready_eq ready_space).comesTo (h hl htail)

theorem lexes_of_scans {v : Json} (htokens : tokens true v = tokens false v)
    (hafter : ∀ c, afterColon c v = ' ' :: hanging (c + 2) (lines v))
    (h : ∀ {p column : Nat} {mayOpen : Bool}, p < column →
      Scans p column mayOpen (hanging (p + 2) (lines v)) (tokens false v)) : Lexes v where
  hanging p := h (by omega)
  afterColon {p column} hp := by
    rw [htokens, hafter]
    exact (h (by omega)).space

end

theorem isPlain_words : ∀ s ∈ ["null", "true", "false"], IsPlain s.toList := by
  intro s hs
  simp only [List.mem_cons, List.not_mem_nil, or_false] at hs
  rcases hs with rfl | rfl | rfl <;> exact isPlain_of_allowsPlain (by decide) (by decide)

theorem lexes_null : Lexes null := by
  refine lexes_of_scans (by simp [tokens]) (fun c => by simp [afterColon]) fun hp => ?_
  simpa [lines, tokens, hanging, Line.chars] using scans_plain (isPlain_words "null" (by simp)) hp

theorem lexes_bool (b : Bool) : Lexes (Json.bool b) := by
  refine lexes_of_scans (by simp [tokens]) (fun c => by simp [afterColon]) fun hp => ?_
  cases b with
  | false =>
    simpa [lines, tokens, hanging, Line.chars] using scans_plain (isPlain_words "false" (by simp)) hp
  | true =>
    simpa [lines, tokens, hanging, Line.chars] using scans_plain (isPlain_words "true" (by simp)) hp

theorem lexes_num (w : Word) : Lexes (num (.word w)) := by
  refine lexes_of_scans (by simp [tokens]) (fun c => by simp [afterColon]) fun hp => ?_
  simpa [lines, tokens, hanging, Line.chars] using scans_plain (isPlain_toText Number.yamlLayout w) hp

theorem lexes_str (s : String) : Lexes (str s) := by
  refine lexes_of_scans (by simp [tokens]) (fun c => by simp [afterColon]) fun hp => ?_
  simpa [lines, tokens] using scans_scalarLines hp

theorem lexes_arr_nil : Lexes (arr []) := by
  refine lexes_of_scans (by simp [tokens]) (fun c => by simp [afterColon]) fun hp => ?_
  simpa [lines, tokens, hanging, Line.chars] using scans_brackets (.inl ⟨rfl, rfl, rfl, rfl⟩) hp

theorem lexes_obj_nil : Lexes (obj []) := by
  refine lexes_of_scans (by simp [tokens]) (fun c => by simp [afterColon]) fun hp => ?_
  simpa [lines, tokens, hanging, Line.chars] using scans_brackets (.inr ⟨rfl, rfl, rfl, rfl⟩) hp

-- Lists. Where a list opens at its column, or is open there already, its elements follow one by one.

section

variable {line column p : Nat} {indents indents' : List Nat} {level : Level} {ts opened : List Token}
  {tail : List Char}

private theorem outdented_itemLines (xs : List Json) (htail : Outdented column tail) :
    Outdented column (atColumn column (itemLines xs) ++ tail) := by
  cases xs with
  | nil => simpa [itemLines] using htail
  | cons x xs =>
    rw [atColumn_itemLines_cons, hanging_lines_arr, List.append_assoc]
    exact .line (Nat.le_refl column) (by decide)

theorem comesTo_column {text rest : List Char}
    (h : ComesTo (here text line column indents true level) rest indents' ts) :
    ComesTo (here (List.replicate column ' ' ++ text) line 0 indents true level) rest indents' ts := by
  refine (leads_of_ready_eq (ready_replicate column)).comesTo ?_
  rwa [Nat.zero_add]

theorem comesTo_item {x : Json} (hx : Lexes x)
    (hopen : Opening column .blockList indents (column :: indents') opened) (hl : level.Clear line ts)
    (htail : Outdented column tail) :
    ComesTo (here ('-' :: ' ' :: hanging (column + 2) (lines x) ++ tail) line column indents true level)
      tail (column :: indents') (ts ++ opened ++ .entry :: tokens false x) := by
  obtain ⟨level', hl', hdash⟩ := leads_entry hopen hl (hanging (column + 2) (lines x) ++ tail)
  simpa using hdash.comesTo (hx.hanging column hl' htail)

theorem comesTo_items (x : Json) (xs : List Json) (hxs : ∀ y ∈ x :: xs, Lexes y)
    (hopen : Opening column .blockList indents (column :: indents') opened) (hl : level.Clear line ts)
    (htail : Outdented column tail) :
    ComesTo (here (hanging column (lines (arr (x :: xs))) ++ tail) line column indents true level) tail
      (column :: indents') (ts ++ opened ++ itemTokens (x :: xs)) := by
  induction xs generalizing x indents opened ts line level with
  | nil =>
    have hx := comesTo_item (hxs x List.mem_cons_self) hopen hl htail
    simpa [hanging_lines_arr, itemLines, itemTokens] using hx
  | cons y ys ih =>
    obtain ⟨hx, hys⟩ := List.forall_mem_cons.1 hxs
    rw [hanging_lines_arr, List.append_assoc]
    -- Only the first dash can open the list; the others find it open.
    refine (comesTo_item hx hopen hl (outdented_itemLines (y :: ys) htail)).andThen fun hl' => ?_
    rw [atColumn_itemLines_cons, List.append_assoc]
    have := comesTo_column (ih y hys (.same indents') hl')
    simpa [itemTokens] using this

theorem lexes_arr_cons {x : Json} {xs : List Json} (hxs : ∀ y ∈ x :: xs, Lexes y) :
    Lexes (arr (x :: xs)) where
  hanging p line indents level before tail hl htail := by
    have hopen : Opening (p + 2) .blockList (p :: indents) ((p + 2) :: p :: indents) [.blockList] :=
      .deeper (by simp)
    refine (comesTo_items x xs hxs hopen hl (htail.mono (by omega))).andThen fun hl' => ?_
    refine ⟨?_, leads_blockEnd (by omega) htail⟩
    simpa [tokens] using hl'.emit .blockEnd
  afterColon {p column} hp line indents level before tail hl htail := by
    rw [afterColon_arr_cons, List.cons_append, List.append_assoc]
    refine (leads_of_ready_eq (ready_break (by decide))).comesTo ?_
    simpa [tokens] using comesTo_column (comesTo_items x xs hxs (.same indents)
      (hl.mono (Nat.le_succ line)) htail)

private theorem outdented_memberLines (k : String) (v : Json) (tail : List Char) :
    Outdented column (List.replicate column ' ' ++ (hanging column (memberLines k v) ++ tail)) := by
  cases hk : isSimpleKey k with
  | true =>
    obtain ⟨d, w, ht, hd⟩ := (isKeyText_keyText hk).isLead_head
    rw [hanging_memberLines column k v hk, ht]
    exact .line (Nat.le_refl column) hd
  | false =>
    rw [hanging_memberLines_of_not_simple column k v hk]
    exact .line (Nat.le_refl column) (by decide)

theorem outdented_memberListLines (ms : List (String × Json)) (htail : Outdented column tail) :
    Outdented column (atColumn column (memberListLines ms) ++ tail) := by
  cases ms with
  | nil => simpa [memberListLines] using htail
  | cons m ms =>
    rw [atColumn_memberListLines_cons, hanging_lines_obj, List.append_assoc, List.append_assoc]
    exact outdented_memberLines m.1 m.2 _

theorem comesTo_member {k : String} {v : Json} (hv : Lexes v)
    (hopen : Opening column .blockMap indents (column :: indents') opened) (hl : level.Clear line ts)
    (htail : Outdented column tail) :
    ComesTo (here (hanging column (memberLines k v) ++ tail) line column indents true level) tail
      (column :: indents') (ts ++ opened ++
      .key :: .scalar (scalarNode k) :: .value :: tokens (isSimpleKey k) v) := by
  cases hk : isSimpleKey k with
  | true =>
    obtain ⟨column', level', hcolumn, hl', hkey⟩ :=
      (isKeyText_keyText hk).leads hopen hl (startsWithGap_afterColon column v tail)
    rw [hanging_memberLines column k v hk, List.append_assoc, List.cons_append]
    simpa using hkey.comesTo (hv.afterColon hcolumn hl' htail)
  | false =>
    -- Key and value stand behind signs of their own: a list as the value is no part of the map's column.
    rw [hanging_memberLines_of_not_simple column k v hk]
    simp only [List.append_assoc, List.cons_append]
    obtain ⟨level', hl', hquery⟩ := leads_explicit_key hopen hl
      (hanging (column + 2) (scalarLines k) ++
        (List.replicate column ' ' ++ ':' :: ' ' :: (hanging (column + 2) (lines v) ++ tail)))
    refine hquery.comesTo (.andThen (scans_scalarLines (by omega) hl'
      (.line (Nat.le_refl column) (by decide))) fun hl'' => comesTo_column ?_)
    obtain ⟨level', hl', hcolon⟩ := leads_explicit_value hl'' (hanging (column + 2) (lines v) ++ tail)
    simpa using hcolon.comesTo (hv.hanging column hl' htail)

theorem comesTo_members (k : String) (v : Json) (ms : List (String × Json))
    (hms : ∀ m ∈ (k, v) :: ms, Lexes m.2)
    (hopen : Opening column .blockMap indents (column :: indents') opened) (hl : level.Clear line ts)
    (htail : Outdented column tail) :
    ComesTo (here (hanging column (lines (obj ((k, v) :: ms))) ++ tail) line column indents true level)
      tail (column :: indents') (ts ++ opened ++ memberTokens ((k, v) :: ms)) := by
  induction ms generalizing k v indents opened ts line level with
  | nil =>
    have hv : Lexes v := hms (k, v) List.mem_cons_self
    simpa [hanging_lines_obj, memberListLines, memberTokens] using comesTo_member hv hopen hl htail
  | cons m ms ih =>
    obtain ⟨hv, hms⟩ := List.forall_mem_cons.1 hms
    rw [hanging_lines_obj, List.append_assoc]
    refine (comesTo_member hv hopen hl (outdented_memberListLines (m :: ms) htail)).andThen fun hl' => ?_
    rw [atColumn_memberListLines_cons, List.append_assoc]
    have := comesTo_column (ih m.1 m.2 hms (.same indents') hl')
    simpa [memberTokens] using this

theorem lexes_obj_cons {k : String} {v : Json} {ms : List (String × Json)}
    (hms : ∀ m ∈ (k, v) :: ms, Lexes m.2) : Lexes (obj ((k, v) :: ms)) := by
  have hnested : ∀ p, Scans p (p + 2) true (hanging (p + 2) (lines (obj ((k, v) :: ms))))
      (.blockMap :: memberTokens ((k, v) :: ms) ++ [.blockEnd]) := by
    intro p line indents level before tail hl htail
    have hopen : Opening (p + 2) .blockMap (p :: indents) ((p + 2) :: p :: indents) [.blockMap] :=
      .deeper (by simp)
    refine (comesTo_members k v ms hms hopen hl (htail.mono (by omega))).andThen fun hl' => ?_
    refine ⟨?_, leads_blockEnd (by omega) htail⟩
    simpa using hl'.emit .blockEnd
  refine ⟨by simpa [tokens] using hnested,
    fun {p column} hp line indents level before tail hl htail => ?_⟩
  rw [afterColon_obj_cons, List.cons_append, List.append_assoc]
  refine (leads_of_ready_eq (ready_break (by decide))).comesTo ?_
  simpa [tokens] using comesTo_column (hnested p (hl.mono (Nat.le_succ line)) htail)

end

/-- Every value without doubles has its tokens. -/
theorem lexes_of_isExact {v : Json} (h : v.IsExact) : Lexes v := by
  induction v using Json.induction with
  | null => exact lexes_null
  | bool b => exact lexes_bool b
  | num n =>
    cases n with
    | word w => exact lexes_num w
    | double _ => exact h.elim
  | str s => exact lexes_str s
  | arr xs ih =>
    have hxs := elementsExact_iff.1 h
    cases xs with
    | nil => exact lexes_arr_nil
    | cons x xs => exact lexes_arr_cons fun y hy => ih y hy (hxs y hy)
  | obj ms ih =>
    have hms := membersExact_iff.1 h
    cases ms with
    | nil => exact lexes_obj_nil
    | cons m ms => exact lexes_obj_cons fun n hn => ih n hn (hms n hn)

/-- At the end of a text its outermost map is closed. -/
theorem run?_end {n line : Nat} {level : Level} {ts : List Token} (hn : 0 < n)
    (hl : level.Clear line ts) : run? n (here [] line 0 [0] true level) = some (ts ++ [.blockEnd]) := by
  obtain ⟨n, rfl⟩ := Nat.exists_eq_add_one_of_ne_zero (Nat.ne_of_gt hn)
  have hready : (here [] line 0 [0] true level).ready = here [] line 0 [0] true level := by
    rw [ready_nil, close_of_le (by simp)]
  have hclose : (here [] line 0 [0] true level).close (fun _ => true) =
      here [] line 0 [] true (level.emit .blockEnd) := rfl
  rw [run?_succ, hready, hclose, settle?_eq (hl.emit .blockEnd)]
  simp [Level.tokens]

/-- The text of an object with members has the tokens of that object. -/
theorem run?_obj {k : String} {v : Json} {ms : List (String × Json)} (h : (obj ((k, v) :: ms)).IsExact)
    {n : Nat} (hn : (hanging 0 (lines (obj ((k, v) :: ms)))).length < n) :
    run? n { rest := hanging 0 (lines (obj ((k, v) :: ms))) } =
      some (tokens false (obj ((k, v) :: ms))) := by
  have hopen : Opening 0 .blockMap [] [0] [.blockMap] := .deeper (by simp)
  have hlexes : ∀ m ∈ (k, v) :: ms, Lexes m.2 := fun m hm => lexes_of_isExact (membersExact_iff.1 h m hm)
  obtain ⟨hl, hleads⟩ := comesTo_members k v ms hlexes hopen (Level.clear_before [] 0) .nil
  rw [List.append_nil] at hleads
  obtain ⟨m, hm, hrun⟩ := hleads n (Nat.lt_of_le_of_lt (length_rest_ready _) hn)
  refine hrun.trans ?_
  simpa [tokens] using run?_end (by omega) hl

end AnnotatedApi.Yaml
