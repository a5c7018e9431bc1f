import AnnotatedApi.Proofs.Outcome
import AnnotatedApi.Proofs.TypeExpr.Printing

/-! Where the reading of a type expression stops when it fails: in front of a token or at the end of the
text. Main statement: all that comes before is the beginning of a type expression. -/
namespace AnnotatedApi.TypeExpr

open Text Grammar Outcome

def Fault.rest : Fault → List Char
  | unexpected rest => rest
  | missing _ rest => rest

private theorem token?_eq_none_iff {s : List Char} : token? s = none ↔ trimStart s = [] := by
  unfold token?
  split
  next h => simp [h]
  next h => simp [h]

theorem eq_missing_of_expect_eq_error {c : Char} {s : List Char} {f : Fault}
    (h : expect c s = .error f) : f = .missing c (trimStart s) := by
  unfold expect at h
  cases he : eat? c s with
  | none =>
    rw [he] at h
    exact (Except.error.inj h).symm
  | some r =>
    rw [he] at h
    cases h

theorem trimStart_trimStart (s : List Char) : trimStart (trimStart s) = trimStart s :=
  trimStart_eq_self (not_isBlank_head?_trimStart s)

/-- Reading stops in front of `rest`, and something could follow there that completes the phrase. -/
def StopsAt (phrase : List Char → Prop) (s rest : List Char) : Prop :=
  ∃ u, s = u ++ rest ∧ trimStart rest = rest ∧ ∃ more, phrase (u ++ more)

/-- Reading stops in a part of the phrase: `front` has been read, and `close` would be read behind. -/
theorem StopsAt.inside {part phrase : List Char → Prop} {s rest : List Char} (h : StopsAt part s rest)
    (front close : List Char) (hp : ∀ l, part l → phrase (front ++ (l ++ close))) :
    StopsAt phrase (front ++ s) rest := by
  obtain ⟨u, rfl, hrest, more, hmore⟩ := h
  refine ⟨front ++ u, (List.append_assoc ..).symm, hrest, more ++ close, ?_⟩
  have hphrase := hp _ hmore
  simp only [List.append_assoc] at hphrase ⊢
  exact hphrase

theorem stopsAt_token {phrase : List Char → Prop} (front s more : List Char)
    (hp : ∀ w, Blanks w → phrase (front ++ (w ++ more))) :
    StopsAt phrase (front ++ s) (trimStart s) := by
  obtain ⟨w, hw, hs⟩ := exists_blanks_append_trimStart s
  refine ⟨front ++ w, ?_, trimStart_trimStart s, more, ?_⟩
  · rw [List.append_assoc, ← hs]
  · rw [List.append_assoc]
    exact hp w hw

/-- Where the reading of a text stops. -/
structure Stopped (s : List Char) : Prop where
  alternation : ∀ {f}, alternation s = .error f → StopsAt (∃ t, Alternation false · t) s f.rest
  alternatives : ∀ {f}, alternatives s = .error f → StopsAt (∃ ts, Alternatives false · ts) s f.rest
  suffixed : ∀ {f}, suffixed s = .error f → StopsAt (∃ t full, Suffixed false · t full) s f.rest
  arguments : ∀ {f}, arguments s = .error f → StopsAt (∃ ts, Arguments false · ts) s f.rest

section

variable {s : List Char} (ih : ∀ r, r.length < s.length → Stopped r) {f : Fault}

include ih

theorem atom_stops (h : atom s = .error f) : StopsAt (∃ t full, Marked false · t full) s f.rest := by
  have hstart : StopsAt (∃ t full, Marked false · t full) s (trimStart s) :=
    stopsAt_token [] s ['*'] fun w hw => ⟨any, true, @Marked.atom _ w _ _ hw .any⟩
  obtain ⟨w, hw, hs⟩ := exists_blanks_append_trimStart s
  rw [atom] at h
  split at h
  next ht =>
    cases h
    rwa [token?_eq_none_iff.1 ht] at hstart
  next c r₀ hl ht =>
    have ht := token?_eq_some_iff.1 ht
    rw [ht] at hs
    split at h
    next hc =>
      subst hc
      rw [hs, ← List.singleton_append, ← List.append_assoc]
      rcases bind_eq_error.1 h with h | ⟨⟨t, r₁, h₁⟩, ha, h⟩
      · refine ((ih r₀ hl).alternation h).inside (w ++ ['(']) [')'] ?_
        rintro l ⟨t, hl⟩
        rw [List.append_assoc]
        exact ⟨t, true, .atom hw (@Atom.parentheses _ l [] t hl .nil)⟩
      · obtain ⟨u, rfl, hu⟩ := (derived r₀).alternation ⟨h₁, ha⟩
        rcases bind_eq_error.1 h with h | ⟨_, -, ⟨⟩⟩
        rw [eq_missing_of_expect_eq_error h, ← List.append_assoc]
        refine stopsAt_token _ r₁ [')'] fun w' hw' => ⟨t, true, ?_⟩
        simp only [List.append_assoc]
        exact .atom hw (.parentheses hu.relax hw')
    next =>
      split at h
      next => cases h
      next =>
        split at h
        next hc =>
          obtain ⟨hn, hr₀⟩ := nameTail_derives r₀
          dsimp only at h
          split at h
          next r₂ h₂ ho =>
            obtain ⟨o, hop, hr⟩ := opening?_eq_some_iff.1 ho
            obtain ⟨w', hw', hs'⟩ := exists_blanks_append_trimStart (nameTail r₀).2.1
            rcases bind_eq_error.1 h with h | ⟨_, -, ⟨⟩⟩
            have hl₂ : r₂.length < s.length :=
              Nat.lt_of_lt_of_le h₂ (Nat.le_trans (nameTail r₀).2.2 (Nat.le_of_lt hl))
            have hfront : s = w ++ c :: ((nameTail r₀).1 ++ (w' ++ o)) ++ r₂ := by
              simp only [List.append_assoc, List.cons_append]
              rw [← hr, ← hs', ← hr₀]
              exact hs
            rw [hfront]
            refine ((ih r₂ hl₂).arguments h).inside _ [] ?_
            rintro l ⟨ts, hl⟩
            simp only [List.append_assoc, List.cons_append, List.append_nil]
            exact ⟨_, true, .atom hw (.apply hc hn hw' hop hl)⟩
          next => cases h
        next =>
          cases h
          rwa [ht] at hstart

theorem marked_stops (h : marked s = .error f) :
    StopsAt (∃ t full, Marked false · t full) s f.rest := by
  obtain ⟨w, hw, hs⟩ := exists_blanks_append_trimStart s
  rw [marked] at h
  split at h
  next r₀ hl he =>
    rw [eat?_eq_some_iff.1 he] at hs
    rw [hs, ← List.singleton_append, ← List.append_assoc]
    rcases bind_eq_error.1 h with h | ⟨_, -, ⟨⟩⟩
    refine ((ih r₀ hl).suffixed h).inside (w ++ ['?']) [] ?_
    rintro l ⟨t, full, hl⟩
    rw [List.append_assoc, List.append_nil]
    exact ⟨_, full, .nullable hw hl⟩
  next r₀ hl _ he =>
    rw [eat?_eq_some_iff.1 he] at hs
    rw [hs, ← List.singleton_append, ← List.append_assoc]
    rcases bind_eq_error.1 h with h | ⟨_, -, ⟨⟩⟩
    refine ((ih r₀ hl).suffixed h).inside (w ++ ['!']) [] ?_
    rintro l ⟨t, full, hl⟩
    rw [List.append_assoc, List.append_nil]
    exact ⟨_, full, .nonNullable hw hl⟩
  next => exact atom_stops ih h

theorem suffixed_stops (h : suffixed s = .error f) :
    StopsAt (∃ t full, Suffixed false · t full) s f.rest := by
  rw [suffixed] at h
  rcases bind_eq_error.1 h with h | ⟨_, -, ⟨⟩⟩
  refine (marked_stops ih h).inside [] [] ?_
  rintro l ⟨t, full, hl⟩
  rw [List.append_nil]
  exact ⟨t, false, hl.suffixed⟩

theorem alternation_stops (h : alternation s = .error f) :
    StopsAt (∃ t, Alternation false · t) s f.rest := by
  rw [alternation] at h
  rcases bind_eq_error.1 h with h | ⟨⟨t, r₀, h₀⟩, hs, h⟩
  · refine (suffixed_stops ih h).inside [] [] ?_
    rintro l ⟨t, full, hl⟩
    rw [List.append_nil]
    exact ⟨t, hl.alternation⟩
  · obtain ⟨u, full, hu, hsu, -⟩ := (derived s).suffixed ⟨h₀, hs⟩
    rcases bind_eq_error.1 h with h | ⟨_, -, ⟨⟩⟩
    rw [hu]
    refine ((ih r₀ h₀).alternatives h).inside u [] ?_
    rintro l ⟨ts, hl⟩
    rw [List.append_nil]
    exact ⟨_, .mk hsu.relax hl⟩

theorem alternatives_stops (h : alternatives s = .error f) :
    StopsAt (∃ ts, Alternatives false · ts) s f.rest := by
  rw [alternatives] at h
  split at h
  next r₀ hl he =>
    obtain ⟨w, hw, hs⟩ := exists_blanks_append_trimStart s
    rw [eat?_eq_some_iff.1 he] at hs
    rw [hs, ← List.singleton_append, ← List.append_assoc]
    rcases bind_eq_error.1 h with h | ⟨⟨t, r₁, h₁⟩, ht, h⟩
    · refine ((ih r₀ hl).suffixed h).inside (w ++ ['|']) [] ?_
      rintro l ⟨t, full, hl⟩
      rw [List.append_assoc]
      exact ⟨[t], @Alternatives.cons _ w l [] _ _ _ hw hl .nil⟩
    · obtain ⟨u, full, rfl, hsu, -⟩ := (derived r₀).suffixed ⟨h₁, ht⟩
      rcases bind_eq_error.1 h with h | ⟨_, -, ⟨⟩⟩
      rw [← List.append_assoc]
      refine ((ih r₁ (Nat.lt_trans h₁ hl)).alternatives h).inside (w ++ ['|'] ++ u) [] ?_
      rintro l ⟨ts, hl⟩
      simp only [List.append_assoc, List.append_nil]
      exact ⟨t :: ts, @Alternatives.cons _ w u l _ _ _ hw hsu.relax hl⟩
  next => cases h

theorem arguments_stops (h : arguments s = .error f) :
    StopsAt (∃ ts, Arguments false · ts) s f.rest := by
  rw [arguments] at h
  rcases bind_eq_error.1 h with h | ⟨⟨t, r₀, h₀⟩, ha, h⟩
  · refine (alternation_stops ih h).inside [] ['>'] ?_
    rintro l ⟨t, hl⟩
    exact ⟨[t], @Arguments.last _ l [] _ hl .nil⟩
  · obtain ⟨u, hu, hsu⟩ := (derived s).alternation ⟨h₀, ha⟩
    dsimp only at h
    split at h
    next r₁ h₁ he =>
      obtain ⟨w, hw, hs⟩ := exists_blanks_append_trimStart r₀
      rw [eat?_eq_some_iff.1 he] at hs
      rcases bind_eq_error.1 h with h | ⟨_, -, ⟨⟩⟩
      have hfront : s = u ++ (w ++ [',']) ++ r₁ := by
        rw [List.append_assoc, List.append_assoc, List.singleton_append, hu, hs]
      rw [hfront]
      refine ((ih r₁ (Nat.lt_trans h₁ h₀)).arguments h).inside _ [] ?_
      rintro l ⟨ts, hl⟩
      simp only [List.append_assoc, List.append_nil]
      exact ⟨_, .cons hsu.relax hw hl⟩
    next =>
      rcases bind_eq_error.1 h with h | ⟨_, -, ⟨⟩⟩
      rw [eq_missing_of_expect_eq_error h, hu]
      exact stopsAt_token u r₀ ['>'] fun w hw => ⟨_, .last hsu.relax hw⟩

end

theorem stopped (s : List Char) : Stopped s :=
  have ih : ∀ r, r.length < s.length → Stopped r := fun r _ => stopped r
  ⟨alternation_stops ih, alternatives_stops ih, suffixed_stops ih, arguments_stops ih⟩
termination_by s.length

end AnnotatedApi.TypeExpr
