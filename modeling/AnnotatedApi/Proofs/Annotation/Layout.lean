import AnnotatedApi.Proofs.Annotation.BlockText
import AnnotatedApi.Proofs.Annotation.Joining

/-! Line ends and indentation mean nothing. A text whose line ends are written in another way, with blanks
behind them, has the same comments up to such changes, and a comment the same lines up to an empty last
one. Blanks behind a tag are not read, so the blocks are the same. -/
namespace AnnotatedApi

open Text

namespace Tag

def Padded (s t : List Char) : Prop := ∃ w, Blanks w ∧ t = s ++ w

variable {s t : List Char}

theorem Padded.dropWhile (h : Padded s t) (p : Char → Bool) :
    Padded (s.dropWhile p) (t.dropWhile p) := by
  obtain ⟨w, hw, rfl⟩ := h
  rw [List.dropWhile_append]
  split
  next hs =>
    refine ⟨w.dropWhile p, fun c hc => hw c ((List.dropWhile_suffix p).subset hc), ?_⟩
    simp [List.isEmpty_iff.1 hs]
  next => exact ⟨w, hw, rfl⟩

theorem Padded.trimStart (h : Padded s t) : Padded (trimStart s) (trimStart t) := h.dropWhile isBlank

theorem Padded.takeWhile_eq (h : Padded s t) :
    t.takeWhile (!isBlank ·) = s.takeWhile (!isBlank ·) := by
  obtain ⟨w, hw, rfl⟩ := h
  have hblank : w.takeWhile (!isBlank ·) = [] :=
    takeWhile_of_startsBlank fun c hc => hw c (List.mem_of_head? hc)
  rw [List.takeWhile_append]
  split
  next hs =>
    rw [hblank, List.append_nil]
    exact ((List.takeWhile_prefix _).eq_of_length hs).symm
  next => rfl

theorem Padded.trim_eq (h : Padded s t) : trim t = trim s := by
  obtain ⟨w, hw, ht⟩ := h.trimStart
  unfold trim
  rw [ht, trimEnd_eq_reverse, List.reverse_append, hw.reverse.trimStart_append, ← trimEnd_eq_reverse]

theorem Padded.head?_eq {c : Char} (h : Padded s t) (hc : isBlank c = false) :
    t.head? = some c ↔ s.head? = some c := by
  obtain ⟨w, hw, rfl⟩ := h
  cases s with
  | cons d s => simp
  | nil =>
    simp only [List.nil_append, List.head?_nil, reduceCtorEq, iff_false]
    intro hw'
    simp [hw c (List.mem_of_head? hw')] at hc

private theorem braced?_append_blanks {w : List Char} (hw : Blanks w) (depth : Nat) (s : List Char) :
    braced? depth (s ++ w) = (braced? depth s).map fun p => (p.1, p.2 ++ w) := by
  induction s generalizing depth with
  | nil =>
    induction w with
    | nil => rfl
    | cons c w ih =>
      have hc : isBlank c := hw c List.mem_cons_self
      have hopen : c ≠ '{' := by rintro rfl; revert hc; decide
      have hclose : c ≠ '}' := by rintro rfl; revert hc; decide
      have ih := ih fun d hd => hw d (List.mem_cons_of_mem c hd)
      simp only [List.nil_append, braced?, Option.map_none] at ih ⊢
      simp [hopen, hclose, ih]
  | cons c s ih =>
    by_cases hopen : c = '{'
    · simp [braced?, hopen, ih, Function.comp_def]
    by_cases hclose : c = '}'
    · cases depth <;> simp [braced?, hclose, ih, Function.comp_def]
    · simp [braced?, hopen, hclose, ih, Function.comp_def]

private theorem cut?_bracket_append_blanks {w : List Char} (hw : Blanks w) (s : List Char) :
    cut? [']'] (s ++ w) = (cut? [']'] s).map fun p => (p.1, p.2 ++ w) := by
  have hclear : ']' ∉ w := by
    intro hm
    have hb := hw _ hm
    revert hb
    decide
  cases w with
  | nil => simp
  | cons d w =>
    rw [List.mem_cons, not_or] at hclear
    rw [cut?_append_cons (by simp) (by simpa using Ne.symm hclear.1), cut?_eq_none_of_not_mem hclear.2]
    simp

/-- The type of a tag does not depend on the blanks behind the tag. -/
theorem Padded.typePart (h : Padded s t) (title : String) :
    (typePart title t).type = (typePart title s).type ∧
      (typePart title t).faults = (typePart title s).faults ∧
      Padded (typePart title s).rest (typePart title t).rest := by
  by_cases hs : s.head? = some '{'
  · obtain ⟨inside, rfl⟩ := List.head?_eq_some_iff.1 hs
    obtain ⟨w, hw, rfl⟩ := h
    simp only [List.cons_append, Tag.typePart, braced?_append_blanks hw]
    split
    next =>
      cases braced? 0 inside with
      | none => exact ⟨rfl, rfl, [], .nil, rfl⟩
      | some p =>
        have hrest : Padded (Text.trimStart p.2) (Text.trimStart (p.2 ++ w)) :=
          Padded.trimStart ⟨w, hw, rfl⟩
        simp only [Option.map_some]
        cases TypeExpr.parseChars p.1 <;> exact ⟨rfl, rfl, hrest⟩
    next => exact ⟨rfl, rfl, w, hw, rfl⟩
  · have ht := mt (h.head?_eq (by decide)).1 hs
    rw [typePart_of_head?_ne hs, typePart_of_head?_ne ht]
    exact ⟨rfl, rfl, h⟩

theorem Padded.namePart (h : Padded s t) :
    (namePart t).name = (namePart s).name ∧ (namePart t).bracketed = (namePart s).bracketed ∧
      Padded (namePart s).rest (namePart t).rest := by
  by_cases hs : s.head? = some '['
  · obtain ⟨inside, rfl⟩ := List.head?_eq_some_iff.1 hs
    obtain ⟨w, hw, rfl⟩ := h
    simp only [List.cons_append, Tag.namePart, cut?_bracket_append_blanks hw]
    cases cut? [']'] inside with
    | none => exact ⟨rfl, rfl, [], .nil, rfl⟩
    | some p => exact ⟨rfl, rfl, w, hw, rfl⟩
  · have ht := mt (h.head?_eq (by decide)).1 hs
    rw [namePart_of_head?_ne hs, namePart_of_head?_ne ht, h.takeWhile_eq]
    exact ⟨rfl, rfl, h.dropWhile _⟩

theorem Padded.isPrefixOf? (h : Padded s t) :
    Padded ((['@'].isPrefixOf? (Text.trimStart s)).getD s)
      ((['@'].isPrefixOf? (Text.trimStart t)).getD t) := by
  have htrim := h.trimStart
  by_cases hs : (Text.trimStart s).head? = some '@'
  · obtain ⟨r, hr⟩ := List.head?_eq_some_iff.1 hs
    obtain ⟨w, hw, ht⟩ := htrim
    rw [ht, hr]
    exact ⟨w, hw, by simp [List.isPrefixOf?]⟩
  · have hnone : ∀ u : List Char, u.head? ≠ some '@' → ['@'].isPrefixOf? u = none := by
      intro u hu
      cases u with
      | nil => rfl
      | cons c u =>
        have hc : '@' ≠ c := fun hc => hu (congrArg some hc.symm)
        simp [List.isPrefixOf?, hc]
    rw [hnone _ hs, hnone _ (mt (htrim.head?_eq (by decide)).1 hs)]
    exact h

theorem Padded.parse_eq (h : Padded s t) : parse t = parse s := by
  have hbody := h.isPrefixOf?
  obtain ⟨htype, hfaults, hrest⟩ :=
    (hbody.dropWhile (!isBlank ·)).trimStart.typePart (String.ofList
      (((['@'].isPrefixOf? (Text.trimStart s)).getD s).takeWhile (!isBlank ·)))
  obtain ⟨hname, hbracketed, hdescription⟩ := hrest.namePart
  unfold parse
  dsimp only
  rw [hbody.takeWhile_eq, htype, hfaults, hname, hbracketed, hdescription.trim_eq, hrest.trim_eq]

end Tag

/-- An empty last line changes nothing in a tag and little in the text before the tags. -/
theorem sections_append_padding {pad : List (List Char)} (hp : IsPadding pad) (ls : List (List Char)) :
    (∃ pad', IsPadding pad' ∧ (sections (ls ++ pad)).1 = (sections ls).1 ++ pad') ∧
      (sections (ls ++ pad)).2.map (fun ls => Tag.parse (joinWith '\n' ls)) =
        (sections ls).2.map fun ls => Tag.parse (joinWith '\n' ls) := by
  induction ls with
  | nil =>
    rcases hp with rfl | rfl
    · exact ⟨⟨[], .inl rfl, rfl⟩, rfl⟩
    · exact ⟨⟨[[]], .inr rfl, rfl⟩, rfl⟩
  | cons line ls ih =>
    obtain ⟨⟨pad', hp', hbefore⟩, htags⟩ := ih
    rw [List.cons_append, sections, sections]
    simp only [hbefore]
    split
    next =>
      obtain ⟨w, hw, hjoin⟩ := hp'.exists_joinWith (List.cons_ne_nil (trimStart line) (sections ls).1)
      have hparse := Tag.Padded.parse_eq ⟨w, hw, hjoin⟩
      rw [List.cons_append] at hparse
      refine ⟨⟨[], .inl rfl, rfl⟩, ?_⟩
      simp only [List.map_cons, htags, hparse]
    next => exact ⟨⟨pad', hp', rfl⟩, htags⟩

private theorem trim_joinWith_padding {pad : List (List Char)} (hp : IsPadding pad)
    (ls : List (List Char)) : trim (joinWith '\n' (ls ++ pad)) = trim (joinWith '\n' ls) := by
  cases ls with
  | nil => rcases hp with rfl | rfl <;> rfl
  | cons l ls =>
    obtain ⟨w, hw, hjoin⟩ := hp.exists_joinWith (List.cons_ne_nil l ls)
    exact Tag.Padded.trim_eq ⟨w, hw, hjoin⟩

def IsIndentation (w : List Char) : Prop := ∀ c ∈ w, c = ' ' ∨ c = '\t'

instance (w : List Char) : Decidable (IsIndentation w) :=
  decidable_of_iff (w.all fun c => c = ' ' ∨ c = '\t') (by simp [IsIndentation])

/-- `t` is `s` with other line ends: a line feed may have a carriage return before it, and any number of
spaces and tabs behind it. -/
inductive Relaid : List Char → List Char → Prop
  | nil : Relaid [] []
  | char {c : Char} {s t : List Char} : c ≠ '\n' → Relaid s t → Relaid (c :: s) (c :: t)
  | newline {v w s t : List Char} : v = [] ∨ v = ['\r'] → IsIndentation w → Relaid s t →
      Relaid ('\n' :: s) (v ++ '\n' :: (w ++ t))

theorem IsIndentation.blanks {w : List Char} (h : IsIndentation w) : Blanks w := by
  intro c hc
  rcases h c hc with rfl | rfl <;> decide

namespace Relaid

variable {s t : List Char}

theorem prefix_iff {pattern : List Char} (h : Relaid s t) (hp : '\n' ∉ pattern ∧ '\r' ∉ pattern) :
    (pattern <+: s ↔ pattern <+: t) ∧
      (pattern <+: s → Relaid (s.drop pattern.length) (t.drop pattern.length)) := by
  induction pattern generalizing s t with
  | nil => simpa using h
  | cons p ps ih =>
    simp only [List.mem_cons, not_or] at hp
    cases h with
    | nil => simp [Relaid.nil]
    | @char c s t hc h =>
      obtain ⟨hiff, hdrop⟩ := ih h ⟨hp.1.2, hp.2.2⟩
      rw [List.cons_prefix_cons, List.cons_prefix_cons, hiff]
      exact ⟨Iff.rfl, fun hprefix => hdrop (hiff.2 hprefix.2)⟩
    | newline hv _ _ =>
      rcases hv with rfl | rfl <;> simp [List.cons_prefix_cons, Ne.symm hp.1.1, Ne.symm hp.2.1]

/-- A sign that holds neither blanks nor line ends is found at the same place. -/
theorem cut? {p : Char} {ps : List Char} (h : Relaid s t) (hp : '\n' ∉ p :: ps ∧ '\r' ∉ p :: ps)
    (hblank : p ≠ ' ' ∧ p ≠ '\t') :
    Option.Rel (fun a b => Relaid a.1 b.1 ∧ Relaid a.2 b.2) (cut? (p :: ps) s)
      (Text.cut? (p :: ps) t) := by
  induction h with
  | nil => exact .none
  | @char c s t hc h ih =>
    obtain ⟨hiff, hdrop⟩ := (Relaid.char hc h).prefix_iff hp
    rw [Text.cut?, Text.cut?]
    by_cases hs : p :: ps <+: c :: s
    · rw [if_pos hs, if_pos (hiff.1 hs)]
      exact .some ⟨.nil, hdrop hs⟩
    · rw [if_neg hs, if_neg (mt hiff.2 hs)]
      generalize Text.cut? (p :: ps) s = a at ih ⊢
      generalize Text.cut? (p :: ps) t = b at ih ⊢
      cases ih with
      | some hr => exact .some ⟨.char hc hr.1, hr.2⟩
      | none => exact .none
  | @newline v w s t hv hw h ih =>
    have hclear : p ∉ v ++ '\n' :: w := by
      simp only [List.mem_cons, not_or] at hp
      have hpv : p ∉ v := by rcases hv with rfl | rfl <;> simp [Ne.symm hp.2.1]
      have hpw : p ∉ w := fun hm => by rcases hw p hm with rfl | rfl <;> simp at hblank
      simp [hpv, hpw, Ne.symm hp.1.1]
    have hleft : Text.cut? (p :: ps) ('\n' :: s) = _ := cut?_append_of_not_mem (u := ['\n']) (by
      simp only [List.mem_append, List.mem_cons, not_or] at hclear
      simpa using hclear.2.1) s
    have hright : Text.cut? (p :: ps) ((v ++ '\n' :: w) ++ t) = _ := cut?_append_of_not_mem hclear t
    rw [List.append_assoc, List.cons_append] at hright
    rw [hleft, hright]
    generalize Text.cut? (p :: ps) s = a at ih ⊢
    generalize Text.cut? (p :: ps) t = b at ih ⊢
    cases ih with
    | some hr =>
      refine .some ⟨?_, hr.2⟩
      simpa using newline hv hw hr.1
    | none => exact .none

theorem head?_slash_iff (h : Relaid s t) : t.head? = some '/' ↔ s.head? = some '/' := by
  cases h with
  | nil => rfl
  | char _ _ => rfl
  | newline hv _ _ => rcases hv with rfl | rfl <;> simp

theorem eq_of_not_mem (h : Relaid s t) (hn : '\n' ∉ s) : t = s := by
  induction h with
  | nil => rfl
  | char _ _ ih =>
    rw [List.mem_cons, not_or] at hn
    rw [ih hn.2]
  | newline _ _ _ => simp at hn

theorem exists_of_append_newline {l : List Char} (hn : '\n' ∉ l) (h : Relaid (l ++ '\n' :: s) t) :
    ∃ v w t', (v = [] ∨ v = ['\r']) ∧ IsIndentation w ∧ Relaid s t' ∧
      t = l ++ (v ++ '\n' :: (w ++ t')) := by
  induction l generalizing t with
  | nil =>
    cases h with
    | char hc _ => exact absurd rfl hc
    | newline hv hw h => exact ⟨_, _, _, hv, hw, h, rfl⟩
  | cons c l ih =>
    rw [List.mem_cons, not_or] at hn
    cases h with
    | char _ h =>
      obtain ⟨v, w, t', hv, hw, h', rfl⟩ := ih hn.2 h
      exact ⟨v, w, t', hv, hw, h', rfl⟩
    | newline _ _ _ => simp at hn

theorem refl (s : List Char) : Relaid s s := by
  induction s with
  | nil => exact .nil
  | cons c s ih =>
    by_cases hc : c = '\n'
    · rw [hc]
      exact .newline (v := []) (w := []) (.inl rfl) (by decide) ih
    · exact .char hc ih

theorem line {l v w : List Char} (hn : '\n' ∉ l) (hv : v = [] ∨ v = ['\r']) (hw : IsIndentation w)
    (h : Relaid s t) : Relaid (l ++ '\n' :: s) (l ++ (v ++ '\n' :: (w ++ t))) := by
  induction l with
  | nil => exact .newline hv hw h
  | cons c l ih =>
    rw [List.mem_cons, not_or] at hn
    exact .char (Ne.symm hn.1) (ih hn.2)

/-- The lines without their decoration are the same, but for an empty one at the end. -/
theorem map_unwrapLine_lines (h : Relaid s t) (hr : '\r' ∉ s) {w : List Char} (hw : IsIndentation w) :
    ∃ pad, IsPadding pad ∧ (lines (w ++ t)).map unwrapLine = (lines s).map unwrapLine ++ pad := by
  have hclear {w : List Char} (hw : IsIndentation w) {c : Char} (hc : c ≠ ' ' ∧ c ≠ '\t') : c ∉ w :=
    fun hm => by rcases hw c hm with rfl | rfl <;> simp at hc
  induction s using induction_on_lines generalizing t w with
  | last l hn =>
    rw [h.eq_of_not_mem hn]
    by_cases hl : l = []
    · subst hl
      by_cases hw' : w = []
      · subst hw'
        exact ⟨[], .inl rfl, rfl⟩
      · refine ⟨[[]], .inr rfl, ?_⟩
        rw [List.append_nil, lines_of_not_mem (hclear hw (by decide)) hw', List.map_singleton,
          unwrapLine, hw.blanks.trimStart_eq_nil]
        rfl
    · have hn' : '\n' ∉ w ++ l := by simp [hn, hclear hw]
      refine ⟨[], .inl rfl, ?_⟩
      rw [lines_of_not_mem hn' (by simp [hl]), lines_of_not_mem hn hl, List.map_singleton,
        unwrapLine_append_blanks hw.blanks, List.append_nil, List.map_singleton]
  | step l s hn ih =>
    obtain ⟨v, w', t', hv, hw', h', rfl⟩ := h.exists_of_append_newline hn
    simp only [List.mem_append, List.mem_cons, not_or] at hr
    obtain ⟨pad, hpad, hlines⟩ := ih h' hr.2.2 hw'
    refine ⟨pad, hpad, ?_⟩
    have hr' : '\r' ∉ w ++ l := by simp [hr.1, hclear hw]
    have hn' : '\n' ∉ (w ++ l) ++ v := by rcases hv with rfl | rfl <;> simp [hn, hclear hw]
    have hdrop : dropReturn ((w ++ l) ++ v) = w ++ l := by
      rcases hv with rfl | rfl
      · rw [List.append_nil, dropReturn_eq_self hr']
      · rw [dropReturn, List.getLast?_concat, if_pos rfl, List.dropLast_concat]
    have hsplit : w ++ (l ++ (v ++ '\n' :: (w' ++ t'))) = ((w ++ l) ++ v) ++ '\n' :: (w' ++ t') := by
      simp
    rw [hsplit, lines_append_newline hn', hdrop, lines_append_newline hn, dropReturn_eq_self hr.1,
      List.map_cons, List.map_cons, hlines, unwrapLine_append_blanks hw.blanks, List.cons_append]

theorem parse_eq (h : Relaid s t) (hr : '\r' ∉ s) : Block.parse t = Block.parse s := by
  obtain ⟨pad, hpad, hlines⟩ := h.map_unwrapLine_lines hr (w := []) (by simp [IsIndentation])
  rw [List.nil_append] at hlines
  obtain ⟨⟨pad', hpad', hbefore⟩, htags⟩ := sections_append_padding hpad ((lines s).map unwrapLine)
  unfold Block.parse
  simp only [hlines, hbefore, htags, trim_joinWith_padding hpad']

/-- The comments are found at the same places, and each is relaid in itself. -/
theorem extract (h : Relaid s t) (hr : '\r' ∉ s) :
    List.Forall₂ (fun a b => Relaid a b ∧ '\r' ∉ a) (Comments.extract s).bodies
        (Comments.extract t).bodies ∧
      (Comments.extract t).unterminated = (Comments.extract s).unterminated := by
  induction hn : s.length using Nat.strong_induction_on generalizing s t with
  | _ n ih =>
    have hopen : Option.Rel _ (Text.cut? ['/', '*', '*'] s) (Text.cut? ['/', '*', '*'] t) :=
      h.cut? (by decide) (by decide)
    generalize hs : Text.cut? ['/', '*', '*'] s = a at hopen
    generalize ht : Text.cut? ['/', '*', '*'] t = b at hopen
    cases hopen with
    | none =>
      rw [Comments.extract_of_no_opening hs, Comments.extract_of_no_opening ht]
      exact ⟨.nil, rfl⟩
    | @some a b hab =>
      obtain ⟨gap, rest⟩ := a
      obtain ⟨gap', rest'⟩ := b
      have hrest : Relaid rest rest' := hab.2
      have hshort := length_lt_of_cut? hs
      have hr' : '\r' ∉ rest := fun hm => hr (by rw [eq_append_of_cut? hs]; simp [hm])
      by_cases hslash : rest.head? = some '/'
      · have hslash' := hrest.head?_slash_iff.2 hslash
        obtain ⟨rest, rfl⟩ := List.head?_eq_some_iff.1 hslash
        obtain ⟨rest', rfl⟩ := List.head?_eq_some_iff.1 hslash'
        rw [Comments.extract_of_plain hs, Comments.extract_of_plain ht]
        rw [List.mem_cons, not_or] at hr'
        cases hrest with
        | char _ hrest => exact ih _ (by simp at hshort; omega) hrest hr'.2 rfl
      · have hslash' := mt hrest.head?_slash_iff.1 hslash
        have hclose : Option.Rel _ (Text.cut? ['*', '/'] rest) (Text.cut? ['*', '/'] rest') :=
          hrest.cut? (by decide) (by decide)
        generalize hs' : Text.cut? ['*', '/'] rest = a at hclose
        generalize ht' : Text.cut? ['*', '/'] rest' = b at hclose
        cases hclose with
        | none =>
          rw [Comments.extract_of_unterminated hs hslash hs',
            Comments.extract_of_unterminated ht hslash' ht']
          exact ⟨.nil, rfl⟩
        | @some a b hab =>
          obtain ⟨body, left⟩ := a
          obtain ⟨body', left'⟩ := b
          have hleft : Relaid left left' := hab.2
          have hshort' := length_lt_of_cut? hs'
          rw [eq_append_of_cut? hs'] at hr'
          simp only [List.mem_append, not_or] at hr'
          rw [Comments.extract_of_comment hs hslash hs', Comments.extract_of_comment ht hslash' ht']
          obtain ⟨hbodies, hend⟩ := ih _ (by omega) hleft hr'.2 rfl
          exact ⟨.cons ⟨hab.1, hr'.1.1⟩ hbodies, hend⟩

end Relaid

theorem Annotations.parse_eq_of_relaid {s t : String} (h : Relaid s.toList t.toList)
    (hr : '\r' ∉ s.toList) : parse t = parse s := by
  obtain ⟨hbodies, hend⟩ := h.extract hr
  have hblocks : (Comments.extract t.toList).bodies.map Block.parse =
      (Comments.extract s.toList).bodies.map Block.parse := by
    generalize (Comments.extract s.toList).bodies = as at hbodies
    generalize (Comments.extract t.toList).bodies = bs at hbodies
    induction hbodies with
    | nil => rfl
    | cons hb _ ih => rw [List.map_cons, List.map_cons, hb.1.parse_eq hb.2, ih]
  unfold parse
  simp only [hblocks, hend]

/-- A text without carriage returns and one with other line ends have the same blocks, so that the same
document is built from them, or the same error results. -/
theorem Document.build_of_relaid {s t : String} (h : Relaid s.toList t.toList) (hr : '\r' ∉ s.toList) :
    (Annotations.parse t).blocks = (Annotations.parse s).blocks ∧
      ∀ settings, build settings t = build settings s := by
  have hparse := Annotations.parse_eq_of_relaid h hr
  refine ⟨by rw [hparse], ?_⟩
  intro settings
  rw [build_eq, build_eq, hparse]

/-- A route with a type over two lines, and a model in a comment that starts where another one ends. -/
def shopText : String :=
  "/** Adds a pet." ++ ("\n" ++ (" * @event POST: /pets - add" ++ ("\n" ++ (" * @param \x7bPet" ++
    ("\n" ++ ("|string\x7d body.pet - new" ++ ("\n" ++ ("@returns {Pet} 200 - done *//**" ++
      ("\n" ++ ("@typedef Pet" ++ ("\n" ++ "@property {string} name*/")))))))))))

def shopTextRelaid : String :=
  "/** Adds a pet." ++ ("\r\n\t" ++ (" * @event POST: /pets - add" ++ ("\n" ++ (" * @param \x7bPet" ++
    ("\n  " ++ ("|string\x7d body.pet - new" ++ ("\r\n" ++ ("@returns {Pet} 200 - done *//**" ++
      ("\r\n\t " ++ ("@typedef Pet" ++ ("\n " ++ "@property {string} name*/")))))))))))

def shopSettings : Settings := { config := { servers := some [⟨"/", none⟩] } }

theorem Document.build_of_relaid_shop :
    Relaid shopText.toList shopTextRelaid.toList ∧ '\r' ∉ shopText.toList ∧
      (Annotations.parse shopTextRelaid).blocks = (Annotations.parse shopText).blocks ∧
      (Annotations.parse shopText).blocks.map (·.kind) = [.route, .schema] ∧
      ∃ d warnings, build shopSettings shopTextRelaid = .ok (d, warnings) ∧
        d.paths.keys = ["/pets"] ∧ d.schemas.keys = ["Pet"] := by
  have h : Relaid shopText.toList shopTextRelaid.toList := by
    -- Kept apart at the line ends, the texts are compared line by line.
    unfold shopText shopTextRelaid
    simp only [String.toList_append, -String.reduceAppend]
    refine .line (v := ['\r']) (w := ['\t']) (by decide) (.inr rfl) (by decide) ?_
    refine .line (v := []) (w := []) (by decide) (.inl rfl) (by decide) ?_
    refine .line (v := []) (w := [' ', ' ']) (by decide) (.inl rfl) (by decide) ?_
    refine .line (v := ['\r']) (w := []) (by decide) (.inr rfl) (by decide) ?_
    refine .line (v := ['\r']) (w := ['\t', ' ']) (by decide) (.inr rfl) (by decide) ?_
    refine .line (v := []) (w := [' ']) (by decide) (.inl rfl) (by decide) ?_
    exact .refl _
  have hr : '\r' ∉ shopText.toList := by decide +kernel
  obtain ⟨hblocks, hbuild⟩ := build_of_relaid h hr
  have hshop : (build shopSettings shopText).toOption.map (fun r => (r.1.paths.keys, r.1.schemas.keys)) =
      some (["/pets"], ["Pet"]) := by
    decide +kernel
  obtain ⟨⟨d, warnings⟩, hd, hkeys⟩ := Option.map_eq_some_iff.1 hshop
  obtain ⟨hpaths, hschemas⟩ := Prod.mk.inj hkeys
  refine ⟨h, hr, hblocks, by decide +kernel, d, warnings, ?_, hpaths, hschemas⟩
  rw [hbuild, Outcome.toOption_eq_some.1 hd]

end AnnotatedApi
