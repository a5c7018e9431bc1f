import AnnotatedApi.Annotation.Comment
import Mathlib.Data.List.Chain

/-! Where the comments of a text start and end. Main statement: a comment is found with its body, and
the search goes on right behind it. -/
namespace AnnotatedApi

open Text

namespace Text

variable {p : Char} {ps text before rest : List Char}

private theorem dropPrefix?_eq_ite (text pattern : List Char) : text.dropPrefix? pattern =
    if pattern <+: text then some (text.drop pattern.length) else none := by
  split
  next h =>
    obtain ⟨rest, rfl⟩ := h
    exact List.dropPrefix?_eq_some_iff.2 ⟨pattern, by simp⟩
  next h =>
    rw [Option.eq_none_iff_forall_ne_some]
    intro rest hrest
    obtain ⟨_, rfl, heq⟩ := List.dropPrefix?_eq_some_iff.1 hrest
    exact h ⟨rest, by rw [beq_iff_eq.1 heq]⟩

theorem cut?_eq_dropInfix? (pattern text : List Char) : cut? pattern text = text.dropInfix? pattern := by
  have hgo : ∀ acc, List.dropInfix?.go pattern text acc =
      (cut? pattern text).map fun c => (acc.reverse ++ c.1, c.2) := by
    induction text with
    | nil =>
      intro acc
      cases pattern <;> simp [List.dropInfix?.go, cut?]
    | cons c cs ih =>
      intro acc
      rw [List.dropInfix?.go, cut?, dropPrefix?_eq_ite]
      by_cases h : pattern <+: c :: cs <;> simp [h, ih, Function.comp_def]
  simp [List.dropInfix?, hgo]

theorem eq_append_of_cut? {pattern : List Char} (h : cut? pattern text = some (before, rest)) :
    text = before ++ pattern ++ rest := by
  rw [cut?_eq_dropInfix?, List.dropInfix?_eq_some_iff] at h
  obtain ⟨⟨pattern', rfl, heq⟩, -⟩ := h
  rw [beq_iff_eq.1 heq]

private theorem not_isInfix_of_cut? (h : cut? (p :: ps) text = some (before, rest)) :
    ¬p :: ps <:+: before := by
  have htext := eq_append_of_cut? h
  rw [cut?_eq_dropInfix?, List.dropInfix?_eq_some_iff] at h
  rintro ⟨s, t, rfl⟩
  have hlength := h.2 s (p :: ps) (t ++ (p :: ps) ++ rest) (by simp [htext]) (BEq.refl _)
  simp only [List.length_append, List.length_cons] at hlength
  omega

/-- A pattern whose first character does not come again in it has no overlap with itself. So the first
place where it stands is the one behind a text that does not hold it. -/
theorem cut?_append (hp : p ∉ ps) (hb : ¬p :: ps <:+: before) (rest : List Char) :
    cut? (p :: ps) (before ++ (p :: ps ++ rest)) = some (before, rest) := by
  rw [cut?_eq_dropInfix?, List.dropInfix?_eq_some_iff]
  refine ⟨⟨p :: ps, by simp, BEq.refl _⟩, ?_⟩
  intro before' pattern' rest' htext heq
  cases beq_iff_eq.1 heq
  rw [List.append_assoc] at htext
  rcases List.append_eq_append_iff.1 htext with ⟨l, rfl, -⟩ | ⟨l, rfl, hl⟩
  · simp
  -- The pattern ends in the text before, or its first character comes again in it.
  cases l with
  | nil => simp
  | cons d l =>
    obtain ⟨rfl, htail⟩ := List.cons.inj hl
    rcases List.append_eq_append_iff.1 htail with ⟨l', rfl, -⟩ | ⟨l', rfl, hl'⟩
    · exact absurd ⟨before', l', by simp⟩ hb
    · cases l' with
      | nil => exact absurd ⟨before', [], by simp⟩ hb
      | cons e l' =>
        obtain ⟨rfl, -⟩ := List.cons.inj hl'
        exact absurd (by simp) hp

theorem cut?_eq_some_iff (hp : p ∉ ps) : cut? (p :: ps) text = some (before, rest) ↔
    text = before ++ (p :: ps ++ rest) ∧ ¬p :: ps <:+: before := by
  constructor
  · intro h
    refine ⟨?_, not_isInfix_of_cut? h⟩
    rw [eq_append_of_cut? h, List.append_assoc]
  · rintro ⟨rfl, hb⟩
    exact cut?_append hp hb rest

theorem cut?_eq_none_iff : cut? (p :: ps) text = none ↔ ¬p :: ps <:+: text := by
  induction text with
  | nil => simp [cut?]
  | cons c cs ih =>
    rw [cut?, List.infix_cons_iff, not_or, ← ih]
    by_cases h : p :: ps <+: c :: cs <;> simp [h]

end Text

/-- A text that cannot end the comment in which it stands. -/
def StaysOpen (s : List Char) : Prop := ¬['*', '/'] <:+: s

instance (s : List Char) : Decidable (StaysOpen s) := inferInstanceAs (Decidable (¬_))

theorem staysOpen_iff_isChain {s : List Char} :
    StaysOpen s ↔ s.IsChain fun a b => ¬(a = '*' ∧ b = '/') := by
  rw [List.isChain_iff_forall_rel_of_append_cons_cons]
  constructor
  · rintro h a b l₁ l₂ hs ⟨rfl, rfl⟩
    exact h ⟨l₁, l₂, by simp [hs]⟩
  · rintro h ⟨l₁, l₂, hs⟩
    exact @h '*' '/' l₁ l₂ (by simp [← hs]) ⟨rfl, rfl⟩

theorem StaysOpen.cons {c : Char} {s : List Char} (h : StaysOpen s) (hc : c ≠ '*') :
    StaysOpen (c :: s) := by
  rw [staysOpen_iff_isChain] at h ⊢
  exact h.cons fun _ _ hcs => hc hcs.1

theorem StaysOpen.append {s s' : List Char} (h : StaysOpen s) (h' : StaysOpen s')
    (hs : s'.head? ≠ some '/') : StaysOpen (s ++ s') := by
  rw [staysOpen_iff_isChain] at h h' ⊢
  refine h.append h' ?_
  rintro a _ b hb ⟨_, rfl⟩
  exact hs hb

theorem StaysOpen.of_isInfix {s s' : List Char} (h : StaysOpen s) (hs : s' <:+: s) : StaysOpen s' :=
  fun hi => h (hi.trans hs)

theorem staysOpen_of_not_mem {s : List Char} (h : '/' ∉ s) : StaysOpen s :=
  fun hi => h (hi.subset (by simp))

/-- The first end of a comment is the one behind its body. -/
theorem StaysOpen.cut? {body : List Char} (h : StaysOpen body) (rest : List Char) :
    cut? ['*', '/'] (body ++ '*' :: '/' :: rest) = some (body, rest) :=
  cut?_append (by decide) h rest

namespace Comments

variable {text gap rest body rest' : List Char}

theorem extract_of_no_opening (h : cut? ['/', '*', '*'] text = none) : extract text = {} := by
  rw [extract]
  split <;> simp_all

theorem extract_of_plain (h : cut? ['/', '*', '*'] text = some (gap, '/' :: rest)) :
    extract text = extract rest := by
  rw [extract]
  split <;> simp_all

theorem extract_of_unterminated (h : cut? ['/', '*', '*'] text = some (gap, rest))
    (hne : rest.head? ≠ some '/') (h' : cut? ['*', '/'] rest = none) :
    extract text = { unterminated := true } := by
  rw [extract]
  split
  next hc => simp [h] at hc
  next hc =>
    rw [h] at hc
    cases hc
    exact absurd rfl hne
  next r _ hc =>
    rw [h] at hc
    cases hc
    split
    next => rfl
    next hc => simp [h'] at hc

theorem extract_of_comment (h : cut? ['/', '*', '*'] text = some (gap, rest))
    (hne : rest.head? ≠ some '/') (h' : cut? ['*', '/'] rest = some (body, rest')) :
    extract text = { extract rest' with bodies := body :: (extract rest').bodies } := by
  rw [extract]
  split
  next hc => simp [h] at hc
  next hc =>
    rw [h] at hc
    cases hc
    exact absurd rfl hne
  next r _ hc =>
    rw [h] at hc
    cases hc
    split
    next hc => simp [h'] at hc
    next hc =>
      rw [h'] at hc
      cases hc
      rfl

/-- Only what follows the first opening matters. -/
theorem extract_eq_of_rest {text' : List Char}
    (h : (cut? ['/', '*', '*'] text).map Prod.snd = (cut? ['/', '*', '*'] text').map Prod.snd) :
    extract text = extract text' := by
  cases hcut : cut? ['/', '*', '*'] text with
  | none =>
    rw [hcut, Option.map_none, eq_comm, Option.map_eq_none_iff] at h
    rw [extract_of_no_opening hcut, extract_of_no_opening h]
  | some p =>
    obtain ⟨gap, rest⟩ := p
    rw [hcut, Option.map_some, eq_comm, Option.map_eq_some_iff] at h
    obtain ⟨⟨gap', rest'⟩, hcut', hrest⟩ := h
    change rest' = rest at hrest
    subst hrest
    by_cases hr : rest'.head? = some '/'
    · obtain ⟨rest, rfl⟩ := List.head?_eq_some_iff.1 hr
      rw [extract_of_plain hcut, extract_of_plain hcut']
    · cases hend : cut? ['*', '/'] rest' with
      | none => rw [extract_of_unterminated hcut hr hend, extract_of_unterminated hcut' hr hend]
      | some q => rw [extract_of_comment hcut hr hend, extract_of_comment hcut' hr hend]

theorem extract_cons {c : Char} (hc : c ≠ '/') (text : List Char) :
    extract (c :: text) = extract text := by
  apply extract_eq_of_rest
  have hno : ¬['/', '*', '*'] <+: c :: text := fun h => hc (List.head_eq_of_cons_eq h.choose_spec).symm
  rw [cut?, if_neg hno]
  simp [Function.comp_def]

theorem head?_append_star_ne (hb : body.head? ≠ some '/') (rest : List Char) :
    (body ++ '*' :: rest).head? ≠ some '/' := by
  cases body with
  | nil => rw [List.nil_append, List.head?_cons]; decide
  | cons c body => exact hb

theorem extract_append (hb : body.head? ≠ some '/') (ho : StaysOpen body) (rest : List Char) :
    extract ('/' :: '*' :: '*' :: (body ++ '*' :: '/' :: rest)) =
      { extract rest with bodies := body :: (extract rest).bodies } :=
  extract_of_comment (by rw [cut?]; rfl) (head?_append_star_ne hb _) (ho.cut? rest)

end Comments

end AnnotatedApi
