import AnnotatedApi.Catalogue
import AnnotatedApi.Proofs.Annotation.Extraction

/-! A text as a sequence of comments with gaps around them. The signs of comments can touch each other
and what stands around them (`/***/`, `/**/**`, `//**`), so what a gap may hold is said by a search from
the left. Main statement: every text is such a sequence in exactly one way, and the comments that are
found in it are those of the sequence. -/
namespace AnnotatedApi

open Text

namespace Comments

/-- A text in which no comment starts: from the left, each `/**` in it has a slash right behind it, and
the search for the next one goes on behind that slash. -/
inductive IsGap : List Char → Prop
  | clear {s : List Char} : ¬['/', '*', '*'] <:+: s → IsGap s
  | plain {s rest : List Char} :
      ¬['/', '*', '*'] <:+: s → IsGap rest → IsGap (s ++ '/' :: '*' :: '*' :: '/' :: rest)

structure IsBody (s : List Char) : Prop where
  head : s.head? ≠ some '/'
  staysOpen : StaysOpen s

abbrev Gap : Type := { s : List Char // IsGap s }

abbrev Body : Type := { s : List Char // IsBody s }

/-- The comments of a text and all that stands between them. -/
structure Tokens where
  lead : Gap
  /-- The comments that end, each with the gap behind it. -/
  comments : List (Body × Gap)
  /-- What follows the opening of a last comment that never ends. -/
  openEnd : Option Body

namespace Tokens

/-- The text from the first comment on. -/
def textBehind (openEnd : Option Body) : List (Body × Gap) → List Char
  | [] => openEnd.elim [] fun b => '/' :: '*' :: '*' :: b.1
  | (b, g) :: rest => '/' :: '*' :: '*' :: (b.1 ++ '*' :: '/' :: (g.1 ++ textBehind openEnd rest))

def text (t : Tokens) : List Char := t.lead.1 ++ textBehind t.openEnd t.comments

def bodies (t : Tokens) : List (List Char) := t.comments.map fun c => c.1.1

end Tokens

def StartsComment (s : List Char) : Prop :=
  s = [] ∨ ∃ u, s = '/' :: '*' :: '*' :: u ∧ u.head? ≠ some '/'

theorem startsComment_textBehind (o : Option Body) (cs : List (Body × Gap)) :
    StartsComment (Tokens.textBehind o cs) := by
  cases cs with
  | nil =>
    cases o with
    | none => exact .inl rfl
    | some b => exact .inr ⟨b.1, rfl, b.2.head⟩
  | cons c cs => exact .inr ⟨_, rfl, head?_append_star_ne c.1.2.head _⟩

variable {g g' s s' rest : List Char}

theorem cut?_opening (hg : ¬['/', '*', '*'] <:+: g) (rest : List Char) :
    cut? ['/', '*', '*'] (g ++ '/' :: '*' :: '*' :: rest) = some (g, rest) :=
  cut?_append (by decide) hg rest

theorem cut?_opening_self (rest : List Char) :
    cut? ['/', '*', '*'] ('/' :: '*' :: '*' :: rest) = some ([], rest) :=
  @cut?_opening [] (by decide) rest

theorem IsGap.extract_append (hg : IsGap g) (hs : StartsComment s) :
    extract (g ++ s) = extract s := by
  induction hg with
  | clear hg =>
    apply extract_eq_of_rest
    rcases hs with rfl | ⟨u, rfl, -⟩
    · rw [List.append_nil, cut?_eq_none_iff.2 hg]
      rfl
    · rw [cut?_opening hg, cut?_opening_self]
      rfl
  | plain hg _ ih =>
    rw [← ih, List.append_assoc]
    exact extract_of_plain (cut?_opening hg _)

private theorem extract_openEnd {b : List Char} (hb : IsBody b) :
    extract ('/' :: '*' :: '*' :: b) = { unterminated := true } :=
  extract_of_unterminated (cut?_opening_self b) hb.head (cut?_eq_none_iff.2 hb.staysOpen)

theorem extract_textBehind (o : Option Body) (cs : List (Body × Gap)) :
    extract (Tokens.textBehind o cs) = ⟨cs.map fun c => c.1.1, o.isSome⟩ := by
  induction cs with
  | nil =>
    cases o with
    | none => exact extract_of_no_opening rfl
    | some b => exact extract_openEnd b.2
  | cons c cs ih =>
    obtain ⟨b, g⟩ := c
    rw [Tokens.textBehind, extract_append b.2.head b.2.staysOpen,
      g.2.extract_append (startsComment_textBehind o cs), ih]
    rfl

theorem extract_text_tokens (t : Tokens) : extract t.text = ⟨t.bodies, t.openEnd.isSome⟩ := by
  unfold Tokens.text
  rw [t.lead.2.extract_append (startsComment_textBehind _ _), extract_textBehind]
  rfl

theorem exists_tokens (text : List Char) : ∃ t : Tokens, t.text = text := by
  induction hn : text.length using Nat.strong_induction_on generalizing text with
  | _ n ih =>
    cases hcut : cut? ['/', '*', '*'] text with
    | none => exact ⟨⟨⟨text, .clear (cut?_eq_none_iff.1 hcut)⟩, [], none⟩, List.append_nil text⟩
    | some p =>
      obtain ⟨g, rest⟩ := p
      have hshort := length_lt_of_cut? hcut
      obtain ⟨rfl, hg⟩ := (cut?_eq_some_iff (by decide)).1 hcut
      by_cases hr : rest.head? = some '/'
      · -- A plain comment: it joins the gap before it to the one behind it.
        obtain ⟨rest, rfl⟩ := List.head?_eq_some_iff.1 hr
        obtain ⟨t, rfl⟩ := ih _ (by simp only [List.length_cons] at hshort; omega) rest rfl
        refine ⟨⟨⟨_, .plain hg t.lead.2⟩, t.comments, t.openEnd⟩, ?_⟩
        simp [Tokens.text]
      · cases hend : cut? ['*', '/'] rest with
        | none =>
          exact ⟨⟨⟨g, .clear hg⟩, [], some ⟨rest, hr, cut?_eq_none_iff.1 hend⟩⟩, rfl⟩
        | some q =>
          obtain ⟨b, rest'⟩ := q
          have hshort' := length_lt_of_cut? hend
          obtain ⟨rfl, hb⟩ := (cut?_eq_some_iff (by decide)).1 hend
          obtain ⟨t, rfl⟩ := ih _ (by omega) rest' rfl
          have hhead : b.head? ≠ some '/' := by
            cases b with
            | nil => simp
            | cons c b => exact hr
          exact ⟨⟨⟨g, .clear hg⟩, (⟨b, hhead, hb⟩, t.lead) :: t.comments, t.openEnd⟩, rfl⟩

/-- What stands before a comment does not turn it into a plain one. -/
theorem IsGap.not_append_eq_plain (hg : ¬['/', '*', '*'] <:+: g) (hs : StartsComment s)
    (hg' : ¬['/', '*', '*'] <:+: g') : g ++ s ≠ g' ++ '/' :: '*' :: '*' :: '/' :: rest := by
  intro h
  rcases hs with rfl | ⟨u, rfl, hu⟩
  · rw [List.append_nil] at h
    exact hg ⟨g', '/' :: rest, by simp [h]⟩
  · have hcut := cut?_opening hg u
    rw [h, cut?_opening hg'] at hcut
    cases hcut
    exact hu rfl

theorem IsGap.append_inj (hg : IsGap g) (hg' : IsGap g') (hs : StartsComment s)
    (hs' : StartsComment s') (h : g ++ s = g' ++ s') : g = g' ∧ s = s' := by
  induction hg generalizing g' with
  | @clear g hg =>
    cases hg' with
    | clear hg' =>
      -- The first opening is the same on both sides, so the gaps before it are.
      have hcut := congrArg (cut? ['/', '*', '*']) h
      rcases hs with rfl | ⟨u, rfl, -⟩ <;> rcases hs' with rfl | ⟨u', rfl, -⟩
      · simpa using h
      · rw [List.append_nil, cut?_eq_none_iff.2 hg, cut?_opening hg'] at hcut
        cases hcut
      · rw [List.append_nil, cut?_eq_none_iff.2 hg', cut?_opening hg] at hcut
        cases hcut
      · rw [cut?_opening hg, cut?_opening hg'] at hcut
        cases hcut
        exact ⟨rfl, rfl⟩
    | plain hg' _ =>
      rw [List.append_assoc] at h
      exact absurd h (not_append_eq_plain hg hs hg')
  | @plain g r hg _ ih =>
    simp only [List.append_assoc, List.cons_append] at h
    cases hg' with
    | clear hg' => exact absurd h.symm (not_append_eq_plain hg' hs' hg)
    | plain hg' hr' =>
      simp only [List.append_assoc, List.cons_append] at h
      have hcut := congrArg (cut? ['/', '*', '*']) h
      rw [cut?_opening hg, cut?_opening hg'] at hcut
      simp only [Option.some.injEq, Prod.mk.injEq, List.cons.injEq, true_and] at hcut
      obtain ⟨rfl, hrest⟩ := hcut
      obtain ⟨rfl, rfl⟩ := ih hr' hrest
      exact ⟨rfl, rfl⟩

private theorem openEnd_ne_comment (o : Option Body) (b : Body) (rest : List Char) :
    Tokens.textBehind o [] ≠ '/' :: '*' :: '*' :: (b.1 ++ '*' :: '/' :: rest) := by
  intro h
  cases o with
  | none => cases h
  | some u =>
    simp only [Tokens.textBehind, Option.elim_some, List.cons.injEq, true_and] at h
    exact u.2.staysOpen ⟨b.1, rest, by simp [h]⟩

theorem textBehind_inj {o o' : Option Body} {cs cs' : List (Body × Gap)}
    (h : Tokens.textBehind o cs = Tokens.textBehind o' cs') : o = o' ∧ cs = cs' := by
  induction cs generalizing cs' with
  | nil =>
    cases cs' with
    | nil =>
      cases o <;> cases o' <;> simp_all [Tokens.textBehind, Subtype.ext_iff]
    | cons c' cs' => exact absurd h (openEnd_ne_comment o c'.1 _)
  | cons c cs ih =>
    cases cs' with
    | nil => exact absurd h.symm (openEnd_ne_comment o' c.1 _)
    | cons c' cs' =>
      obtain ⟨b, g⟩ := c
      obtain ⟨b', g'⟩ := c'
      simp only [Tokens.textBehind, List.cons.injEq, true_and] at h
      have hcut := b.2.staysOpen.cut? (g.1 ++ Tokens.textBehind o cs)
      rw [h, b'.2.staysOpen.cut?] at hcut
      simp only [Option.some.injEq, Prod.mk.injEq] at hcut
      obtain ⟨hg, hcs⟩ := g.2.append_inj g'.2 (startsComment_textBehind o cs)
        (startsComment_textBehind o' cs') hcut.2.symm
      obtain ⟨rfl, rfl⟩ := ih hcs
      rw [Subtype.ext hcut.1, Subtype.ext hg]
      exact ⟨rfl, rfl⟩

theorem text_inj {t t' : Tokens} (h : t.text = t'.text) : t = t' := by
  obtain ⟨hlead, hrest⟩ := t.lead.2.append_inj t'.lead.2 (startsComment_textBehind _ _)
    (startsComment_textBehind _ _) h
  obtain ⟨hopen, hcomments⟩ := textBehind_inj hrest
  cases t
  cases t'
  simp only [Tokens.mk.injEq]
  exact ⟨Subtype.ext hlead, hcomments, hopen⟩

/-- The comments that are found are those of the sequence, with a warning if the last one never ends.
Every text is one such sequence, so what stands outside of comments has no part in the blocks. -/
theorem extract_finds_tokens :
    (∀ t : Tokens, extract t.text = ⟨t.bodies, t.openEnd.isSome⟩ ∧
      (Annotations.parse (String.ofList t.text)).warnings =
        if t.openEnd.isSome then [.unterminatedComment] else []) ∧
    (∀ text : List Char, ∃! t : Tokens, t.text = text) ∧
    ∀ t t' : Tokens, t.bodies = t'.bodies →
      (Annotations.parse (String.ofList t.text)).blocks =
        (Annotations.parse (String.ofList t'.text)).blocks := by
  have hparse : ∀ t : Tokens, Annotations.parse (String.ofList t.text) =
      ⟨t.bodies.map Block.parse, t.openEnd.isSome⟩ := by
    intro t
    rw [Annotations.parse, String.toList_ofList, extract_text_tokens]
  refine ⟨fun t => ⟨extract_text_tokens t, ?_⟩, ?_, ?_⟩
  · rw [hparse]
    rfl
  · intro text
    obtain ⟨t, ht⟩ := exists_tokens text
    exact ⟨t, ht, fun t' ht' => text_inj (ht'.trans ht.symm)⟩
  · intro t t' h
    rw [hparse, hparse, h]

/-- The text `/**/**//***/x//****/ /**/ /** open`. -/
def crowded : Tokens where
  lead := ⟨['/', '*', '*', '/', '*', '*', '/'], .plain (s := []) (by decide) (.clear (by decide))⟩
  comments := [
    (⟨[], by decide, by decide⟩, ⟨['x', '/'], .clear (by decide)⟩),
    (⟨['*'], by decide, by decide⟩,
      ⟨[' ', '/', '*', '*', '/', ' '], .plain (s := [' ']) (by decide) (.clear (by decide))⟩)]
  openEnd := some ⟨[' ', 'o', 'p', 'e', 'n'], by decide, by decide⟩

/-- The text `/***//****/`. -/
def bare : Tokens where
  lead := ⟨[], .clear (by decide)⟩
  comments := [
    (⟨[], by decide, by decide⟩, ⟨[], .clear (by decide)⟩),
    (⟨['*'], by decide, by decide⟩, ⟨[], .clear (by decide)⟩)]
  openEnd := none

theorem extract_finds_tokens_crowded :
    crowded.text = "/**/**//***/x//****/ /**/ /** open".toList ∧ bare.text = "/***//****/".toList ∧
      extract crowded.text = ⟨[[], ['*']], true⟩ ∧
      (Annotations.parse (String.ofList crowded.text)).warnings = [.unterminatedComment] ∧
      (Annotations.parse (String.ofList crowded.text)).blocks =
        (Annotations.parse (String.ofList bare.text)).blocks :=
  ⟨by decide +kernel, by decide +kernel, (extract_finds_tokens.1 crowded).1,
    (extract_finds_tokens.1 crowded).2, extract_finds_tokens.2.2 crowded bare rfl⟩

end Comments

end AnnotatedApi
