import AnnotatedApi.Proofs.TypeExpr.Grammar

/-! What each step of reading a type expression does. -/
namespace AnnotatedApi.TypeExpr

open Text Grammar

/-- A step succeeds with this value and leaves this text. -/
def Reads {α : Type} {P : List Char → Prop} (x : Except Fault (α × { r : List Char // P r }))
    (a : α) (rest : List Char) : Prop := ∃ h, x = .ok (a, ⟨rest, h⟩)

section

variable {α β : Type} {P Q : List Char → Prop} {x : Except Fault (α × { r : List Char // P r })}

theorem reads_bind {f : α × { r : List Char // P r } → Except Fault (β × { r : List Char // Q r })}
    {b : β} {r : List Char} :
    Reads (x >>= f) b r ↔ ∃ a r₀ h, x = .ok (a, ⟨r₀, h⟩) ∧ Reads (f (a, ⟨r₀, h⟩)) b r := by
  cases x with
  | error e => simp [Reads, bind, Except.bind]
  | ok p =>
    constructor
    · intro h
      exact ⟨p.1, p.2.1, p.2.2, rfl, h⟩
    · rintro ⟨a, r₀, h, hp, hf⟩
      rw [Except.ok.inj hp]
      exact hf

theorem reads_pure {a b : α} {r r' : List Char} {h : P r'} :
    Reads (pure (a, ⟨r', h⟩) : Except Fault (α × { r : List Char // P r })) b r ↔
      b = a ∧ r = r' := by
  constructor
  · rintro ⟨_, h⟩
    cases h
    exact ⟨rfl, rfl⟩
  · rintro ⟨rfl, rfl⟩
    exact ⟨h, rfl⟩

theorem reads_map {f : α → β} {g : ∀ r, P r → Q r} {b : β} {r : List Char} :
    Reads (x >>= fun p => pure (f p.1, (⟨p.2.1, g p.2.1 p.2.2⟩ : { r : List Char // Q r }))) b r ↔
      ∃ a, Reads x a r ∧ b = f a := by
  constructor
  · intro h
    obtain ⟨a, r₀, h₀, hx, h⟩ := reads_bind.1 h
    obtain ⟨rfl, rfl⟩ := reads_pure.1 h
    exact ⟨a, ⟨h₀, hx⟩, rfl⟩
  · rintro ⟨a, ⟨h₀, hx⟩, rfl⟩
    exact reads_bind.2 ⟨a, r, h₀, hx, reads_pure.2 ⟨rfl, rfl⟩⟩

end

theorem length_lt_of_trimStart_eq_cons {s r : List Char} {c : Char} (h : trimStart s = c :: r) :
    r.length < s.length := by
  have hl := length_trimStart_le s
  rwa [h, List.length_cons] at hl

theorem token?_eq_some_iff {s : List Char} {c : Char} {r : After s} :
    token? s = some (c, r) ↔ trimStart s = c :: r.1 := by
  unfold token?
  split
  next h => simp [h]
  next c' r' h =>
    obtain ⟨r, hr⟩ := r
    simp [h]

theorem token?_eq_some_of_trimStart {s r : List Char} {c : Char} (h : trimStart s = c :: r) :
    token? s = some (c, ⟨r, length_lt_of_trimStart_eq_cons h⟩) :=
  token?_eq_some_iff.2 h

theorem eat?_eq_some_iff {c : Char} {s : List Char} {r : After s} :
    eat? c s = some r ↔ trimStart s = c :: r.1 := by
  unfold eat?
  rw [Option.bind_eq_some_iff]
  constructor
  · rintro ⟨⟨c', r'⟩, ht, hr⟩
    simp only [Option.ite_none_right_eq_some, Option.some.injEq] at hr
    rw [← hr.1, ← hr.2]
    exact token?_eq_some_iff.1 ht
  · intro h
    exact ⟨(c, r), token?_eq_some_iff.2 h, if_pos rfl⟩

theorem eat?_eq_none_iff {c : Char} {s : List Char} :
    eat? c s = none ↔ (trimStart s).head? ≠ some c := by
  rw [Option.eq_none_iff_forall_ne_some, Ne, List.head?_eq_some_iff]
  constructor
  · rintro h ⟨r, hr⟩
    exact h ⟨r, length_lt_of_trimStart_eq_cons hr⟩ (eat?_eq_some_iff.2 hr)
  · intro h r hr
    exact h ⟨r.1, eat?_eq_some_iff.1 hr⟩

theorem expect_eq_ok_iff {c : Char} {s : List Char} {r : After s} :
    expect c s = .ok r ↔ trimStart s = c :: r.1 := by
  unfold expect
  rw [← eat?_eq_some_iff]
  cases eat? c s with
  | none => simp
  | some r' => simp

theorem reads_expect_bind {β : Type} {Q : List Char → Prop} {c : Char} {s r : List Char}
    {f : After s → Except Fault (β × { r : List Char // Q r })} {b : β} :
    Reads (expect c s >>= f) b r ↔ ∃ (r₀ : List Char) (h : trimStart s = c :: r₀),
      Reads (f ⟨r₀, length_lt_of_trimStart_eq_cons h⟩) b r := by
  constructor
  · rintro ⟨h, hb⟩
    cases he : expect c s with
    | error e => simp [he, bind, Except.bind] at hb
    | ok r₀ =>
      rw [he] at hb
      exact ⟨r₀.1, expect_eq_ok_iff.1 he, h, hb⟩
  · rintro ⟨r₀, hs, h, hb⟩
    have he : expect c s = .ok ⟨r₀, length_lt_of_trimStart_eq_cons hs⟩ := expect_eq_ok_iff.2 hs
    rw [he]
    exact ⟨h, hb⟩

theorem brackets?_eq_some_iff {s : List Char} {r : After s} :
    brackets? s = some r ↔ trimStart s = '[' :: ']' :: r.1 := by
  unfold brackets?
  rw [Option.bind_eq_some_iff]
  constructor
  · rintro ⟨⟨c, rest, h⟩, ht, hr⟩
    rw [token?_eq_some_iff.1 ht]
    dsimp only at hr ⊢
    split at hr
    next hc =>
      split at hr
      next => rw [hc, ← Option.some.inj hr]
      next => contradiction
    next => contradiction
  · intro h
    exact ⟨('[', ⟨']' :: r.1, length_lt_of_trimStart_eq_cons h⟩), token?_eq_some_iff.2 h, rfl⟩

theorem opening?_eq_some_iff {s : List Char} {r : After s} :
    opening? s = some r ↔ ∃ o, Opening o ∧ trimStart s = o ++ r.1 := by
  unfold opening?
  rw [Option.bind_eq_some_iff]
  constructor
  · rintro ⟨⟨c, rest, h⟩, ht, hr⟩
    rw [token?_eq_some_iff.1 ht]
    dsimp only at hr ⊢
    split at hr
    next hc =>
      rw [hc, ← Option.some.inj hr]
      exact ⟨['<'], .angle, rfl⟩
    next =>
      split at hr
      next hc =>
        split at hr
        next =>
          rw [hc, ← Option.some.inj hr]
          exact ⟨['.', '<'], .point, rfl⟩
        next => contradiction
      next => contradiction
  · rintro ⟨o, ho, h⟩
    cases ho with
    | angle => exact ⟨('<', r), token?_eq_some_iff.2 h, rfl⟩
    | point =>
      exact ⟨('.', ⟨'<' :: r.1, length_lt_of_trimStart_eq_cons h⟩), token?_eq_some_iff.2 h, rfl⟩

def extendsName : List Char → Bool
  | [] => false
  | c :: s => isNamePart c || c = '.' && s.head?.any isNameStart

theorem nameTail_cons (c : Char) (s : List Char) : nameTail (c :: s) =
    if extendsName (c :: s) then
      (c :: (nameTail s).1, ⟨(nameTail s).2.1, Nat.le_succ_of_le (nameTail s).2.2⟩)
    else ([], ⟨c :: s, Nat.le_refl _⟩) := rfl

theorem nameTail_step {c : Char} {s : List Char} (h : extendsName (c :: s)) :
    (nameTail (c :: s)).1 = c :: (nameTail s).1 ∧ (nameTail (c :: s)).2.1 = (nameTail s).2.1 := by
  rw [nameTail_cons, if_pos h]
  exact ⟨rfl, rfl⟩

theorem nameTail_end {c : Char} {s : List Char} (h : extendsName (c :: s) = false) :
    (nameTail (c :: s)).1 = [] ∧ (nameTail (c :: s)).2.1 = c :: s := by
  rw [nameTail_cons, h]
  exact ⟨rfl, rfl⟩

theorem extendsName_part {c : Char} (h : isNamePart c) (s : List Char) : extendsName (c :: s) := by
  simp [extendsName, h]

theorem extendsName_point {c : Char} (h : isNameStart c) (s : List Char) :
    extendsName ('.' :: c :: s) := by
  simp [extendsName, h]

theorem nameTail_derives (s : List Char) :
    NameTail (nameTail s).1 ∧ s = (nameTail s).1 ++ (nameTail s).2.1 := by
  induction s with
  | nil => exact ⟨.nil, rfl⟩
  | cons c s ih =>
    by_cases he : extendsName (c :: s)
    · obtain ⟨h₁, h₂⟩ := nameTail_step he
      rw [h₁, h₂]
      refine ⟨?_, congrArg (c :: ·) ih.2⟩
      by_cases hc : isNamePart c
      · exact .part hc ih.1
      · obtain ⟨rfl, hs⟩ : c = '.' ∧ s.head?.any isNameStart := by simpa [extendsName, hc] using he
        obtain ⟨d, hd, hstart⟩ := (Option.any_eq_true _ _).1 hs
        obtain ⟨s', rfl⟩ := List.head?_eq_some_iff.1 hd
        -- The point is taken because of the character behind it, which is taken next.
        have hd := (nameTail_step (extendsName_part (isNamePart_of_isNameStart hstart) s')).1
        rw [hd] at ih ⊢
        exact .point hstart ih.1
    · obtain ⟨h₁, h₂⟩ := nameTail_end (eq_false_of_ne_true he)
      rw [h₁, h₂]
      exact ⟨.nil, rfl⟩

theorem arrays_cons {t : TypeExpr} {s r : List Char} (h : trimStart s = '[' :: ']' :: r) :
    (arrays t s).1 = (arrays (arrayOf t) r).1 ∧ (arrays t s).2.1 = (arrays (arrayOf t) r).2.1 := by
  have hl : r.length < s.length :=
    Nat.lt_of_succ_lt (length_lt_of_trimStart_eq_cons h)
  have hb : brackets? s = some ⟨r, hl⟩ := brackets?_eq_some_iff.2 h
  rw [arrays, hb]
  exact ⟨rfl, rfl⟩

theorem arrays_end {t : TypeExpr} {s : List Char} (h : brackets? s = none) :
    arrays t s = (t, ⟨s, Nat.le_refl _⟩) := by
  rw [arrays, h]

theorem arrays_derives (t : TypeExpr) (s : List Char) :
    ∃ v, s = v ++ (arrays t s).2.1 ∧ Arrays t v (arrays t s).1 ∧
      brackets? (arrays t s).2.1 = none := by
  cases hb : brackets? s with
  | none =>
    rw [arrays_end hb]
    exact ⟨[], rfl, .nil, hb⟩
  | some r =>
    have hs := brackets?_eq_some_iff.1 hb
    have hl := r.2
    obtain ⟨w, hw, hws⟩ := exists_blanks_append_trimStart s
    obtain ⟨v, hv, ha, he⟩ := arrays_derives (arrayOf t) r.1
    rw [(arrays_cons hs).1, (arrays_cons hs).2]
    refine ⟨w ++ '[' :: ']' :: v, ?_, .cons hw ha, he⟩
    rw [List.append_assoc, List.cons_append, List.cons_append, ← hv, ← hs]
    exact hws
termination_by s.length

theorem Grammar.Arrays.reads {t t' : TypeExpr} {v r : List Char} (h : Arrays t v t')
    (hr : brackets? r = none) : (arrays t (v ++ r)).1 = t' ∧ (arrays t (v ++ r)).2.1 = r := by
  induction h with
  | nil =>
    rw [List.nil_append, arrays_end hr]
    exact ⟨rfl, rfl⟩
  | @cons t t' w v hw _ ih =>
    have hs : trimStart (w ++ '[' :: ']' :: v ++ r) = '[' :: ']' :: (v ++ r) := by
      rw [List.append_assoc, hw.trimStart_append]
      exact trimStart_cons_of_not_isBlank (by decide) _
    rw [(arrays_cons hs).1, (arrays_cons hs).2]
    exact ih

theorem mark_eq {t : TypeExpr} {s r : List Char} (h : trimStart s = '=' :: r) :
    (mark t s).1 = optional t ∧ (mark t s).2.1 = r := by
  have he : eat? '=' s = some ⟨r, length_lt_of_trimStart_eq_cons h⟩ := eat?_eq_some_iff.2 h
  rw [mark, he]
  exact ⟨rfl, rfl⟩

theorem mark_end {t : TypeExpr} {s : List Char} (h : (trimStart s).head? ≠ some '=') :
    mark t s = (t, ⟨s, Nat.le_refl _⟩) := by
  rw [mark, eat?_eq_none_iff.2 h]

-- One equivalence for each step, and for each token that it can meet: when it succeeds, with what,
-- and what it leaves.

theorem reads_alternation {s r : List Char} {t : TypeExpr} :
    Reads (alternation s) t r ↔ ∃ t₀ r₀ ts, Reads (suffixed s) t₀ r₀ ∧ Reads (alternatives r₀) ts r ∧
      t = ofAlternatives t₀ ts := by
  rw [alternation]
  constructor
  · intro h
    obtain ⟨t₀, r₀, h₀, hs, h⟩ := reads_bind.1 h
    obtain ⟨ts, r₁, h₁, ha, h⟩ := reads_bind.1 h
    obtain ⟨rfl, rfl⟩ := reads_pure.1 h
    exact ⟨t₀, r₀, ts, ⟨h₀, hs⟩, ⟨h₁, ha⟩, rfl⟩
  · rintro ⟨t₀, r₀, ts, ⟨h₀, hs⟩, ⟨h₁, ha⟩, rfl⟩
    exact reads_bind.2 ⟨t₀, r₀, h₀, hs, reads_bind.2 ⟨ts, r, h₁, ha, reads_pure.2 ⟨rfl, rfl⟩⟩⟩

theorem reads_alternatives_bar {s r₀ r : List Char} {ts : List TypeExpr}
    (hs : trimStart s = '|' :: r₀) :
    Reads (alternatives s) ts r ↔ ∃ t r₁ ts', Reads (suffixed r₀) t r₁ ∧
      Reads (alternatives r₁) ts' r ∧ ts = t :: ts' := by
  have hl := length_lt_of_trimStart_eq_cons hs
  have he : eat? '|' s = some ⟨r₀, hl⟩ := eat?_eq_some_iff.2 hs
  rw [alternatives, he]
  constructor
  · intro h
    obtain ⟨t, r₁, h₁, ht, h⟩ := reads_bind.1 h
    obtain ⟨ts', r₂, h₂, hts, h⟩ := reads_bind.1 h
    obtain ⟨rfl, rfl⟩ := reads_pure.1 h
    exact ⟨t, r₁, ts', ⟨h₁, ht⟩, ⟨h₂, hts⟩, rfl⟩
  · rintro ⟨t, r₁, ts', ⟨h₁, ht⟩, ⟨h₂, hts⟩, rfl⟩
    exact reads_bind.2 ⟨t, r₁, h₁, ht, reads_bind.2 ⟨ts', r, h₂, hts, reads_pure.2 ⟨rfl, rfl⟩⟩⟩

theorem reads_alternatives_end {s r : List Char} {ts : List TypeExpr}
    (hs : (trimStart s).head? ≠ some '|') :
    Reads (alternatives s) ts r ↔ ts = [] ∧ r = s := by
  rw [alternatives, eat?_eq_none_iff.2 hs]
  exact reads_pure

theorem reads_suffixed {s r : List Char} {t : TypeExpr} :
    Reads (suffixed s) t r ↔ ∃ t₀ r₀, Reads (marked s) t₀ r₀ ∧
      t = (mark (arrays t₀ r₀).1 (arrays t₀ r₀).2.1).1 ∧
      r = (mark (arrays t₀ r₀).1 (arrays t₀ r₀).2.1).2.1 := by
  rw [suffixed]
  constructor
  · intro h
    obtain ⟨t₀, r₀, h₀, hm, h⟩ := reads_bind.1 h
    exact ⟨t₀, r₀, ⟨h₀, hm⟩, reads_pure.1 h⟩
  · rintro ⟨t₀, r₀, ⟨h₀, hm⟩, h⟩
    exact reads_bind.2 ⟨t₀, r₀, h₀, hm, reads_pure.2 h⟩

theorem reads_marked_nullable {s r₀ r : List Char} {t : TypeExpr} (hs : trimStart s = '?' :: r₀) :
    Reads (marked s) t r ↔ ∃ t₀, Reads (suffixed r₀) t₀ r ∧ t = nullable t₀ := by
  have hl := length_lt_of_trimStart_eq_cons hs
  have he : eat? '?' s = some ⟨r₀, hl⟩ := eat?_eq_some_iff.2 hs
  rw [marked, he]
  exact reads_map

theorem reads_marked_nonNullable {s r₀ r : List Char} {t : TypeExpr}
    (hs : trimStart s = '!' :: r₀) :
    Reads (marked s) t r ↔ ∃ t₀, Reads (suffixed r₀) t₀ r ∧ t = nonNullable t₀ := by
  have hl := length_lt_of_trimStart_eq_cons hs
  have he : eat? '!' s = some ⟨r₀, hl⟩ := eat?_eq_some_iff.2 hs
  have hn : eat? '?' s = none := eat?_eq_none_iff.2 (by simp [hs])
  rw [marked, hn, he]
  exact reads_map

theorem marked_eq_atom {s : List Char} (hn : (trimStart s).head? ≠ some '?')
    (hn' : (trimStart s).head? ≠ some '!') : marked s = atom s := by
  rw [marked, eat?_eq_none_iff.2 hn, eat?_eq_none_iff.2 hn']

theorem reads_atom_parentheses {s r₀ r : List Char} {t : TypeExpr} (hs : trimStart s = '(' :: r₀) :
    Reads (atom s) t r ↔ ∃ r₁, Reads (alternation r₀) t r₁ ∧ trimStart r₁ = ')' :: r := by
  have ht := token?_eq_some_of_trimStart hs
  rw [atom, ht]
  constructor
  · intro h
    obtain ⟨t₀, r₁, h₁, ha, h⟩ := reads_bind.1 h
    obtain ⟨r₂, h₂, h⟩ := reads_expect_bind.1 h
    obtain ⟨rfl, rfl⟩ := reads_pure.1 h
    exact ⟨r₁, ⟨h₁, ha⟩, h₂⟩
  · rintro ⟨r₁, ⟨h₁, ha⟩, h₂⟩
    exact reads_bind.2 ⟨t, r₁, h₁, ha, reads_expect_bind.2 ⟨r, h₂, reads_pure.2 ⟨rfl, rfl⟩⟩⟩

theorem reads_atom_any {s r₀ r : List Char} {t : TypeExpr} (hs : trimStart s = '*' :: r₀) :
    Reads (atom s) t r ↔ t = any ∧ r = r₀ := by
  rw [atom, token?_eq_some_of_trimStart hs]
  exact reads_pure

theorem reads_atom_name {s r₀ r : List Char} {c : Char} {t : TypeExpr} (hs : trimStart s = c :: r₀)
    (hc : isNameStart c) (ho : opening? (nameTail r₀).2.1 = none) :
    Reads (atom s) t r ↔
      t = name (String.ofList (c :: (nameTail r₀).1)) ∧ r = (nameTail r₀).2.1 := by
  have hp : c ≠ '(' := ne_of_isNameStart hc (by decide)
  have ha : c ≠ '*' := ne_of_isNameStart hc (by decide)
  rw [atom, token?_eq_some_of_trimStart hs]
  simp only [hp, ha, hc, if_true, if_false, ho]
  exact reads_pure

theorem reads_atom_apply {s r₀ o r₁ r : List Char} {c : Char} {t : TypeExpr}
    (hs : trimStart s = c :: r₀) (hc : isNameStart c) (ho : Opening o)
    (hr : trimStart (nameTail r₀).2.1 = o ++ r₁) :
    Reads (atom s) t r ↔ ∃ ts, Reads (arguments r₁) ts r ∧
      t = apply (name (String.ofList (c :: (nameTail r₀).1))) ts := by
  have hp : c ≠ '(' := ne_of_isNameStart hc (by decide)
  have ha : c ≠ '*' := ne_of_isNameStart hc (by decide)
  have hl : r₁.length < (nameTail r₀).2.1.length := by
    have := length_trimStart_le (nameTail r₀).2.1
    rw [hr, List.length_append] at this
    have := ho.length_pos
    omega
  have he : opening? (nameTail r₀).2.1 = some ⟨r₁, hl⟩ := opening?_eq_some_iff.2 ⟨o, ho, hr⟩
  rw [atom, token?_eq_some_of_trimStart hs]
  simp only [hp, ha, hc, if_true, if_false, he]
  exact reads_map

theorem head_of_reads_atom {s r : List Char} {t : TypeExpr} (h : Reads (atom s) t r) :
    ∃ c r₀, trimStart s = c :: r₀ ∧ (c = '(' ∨ c = '*' ∨ isNameStart c) := by
  obtain ⟨hr, ha⟩ := h
  rw [atom] at ha
  split at ha
  next => contradiction
  next c r₀ h₀ ht =>
    refine ⟨c, r₀, token?_eq_some_iff.1 ht, ?_⟩
    by_contra hc
    simp only [not_or] at hc
    rw [if_neg hc.1, if_neg hc.2.1, if_neg hc.2.2] at ha
    contradiction

theorem reads_arguments {s r : List Char} {ts : List TypeExpr} :
    Reads (arguments s) ts r ↔ ∃ t r₀, Reads (alternation s) t r₀ ∧
      (trimStart r₀ = '>' :: r ∧ ts = [t] ∨
        ∃ r₁ ts', trimStart r₀ = ',' :: r₁ ∧ Reads (arguments r₁) ts' r ∧ ts = t :: ts') := by
  rw [arguments]
  constructor
  · intro h
    obtain ⟨t, r₀, h₀, ha, h⟩ := reads_bind.1 h
    refine ⟨t, r₀, ⟨h₀, ha⟩, ?_⟩
    dsimp only at h
    split at h
    next r₁ h₁ he =>
      obtain ⟨ts', hts, rfl⟩ := reads_map.1 h
      exact .inr ⟨r₁, ts', eat?_eq_some_iff.1 he, hts, rfl⟩
    next he =>
      obtain ⟨r₁, h₁, h⟩ := reads_expect_bind.1 h
      obtain ⟨rfl, rfl⟩ := reads_pure.1 h
      exact .inl ⟨h₁, rfl⟩
  · rintro ⟨t, r₀, ⟨h₀, ha⟩, h⟩
    refine reads_bind.2 ⟨t, r₀, h₀, ha, ?_⟩
    dsimp only
    rcases h with ⟨hr, rfl⟩ | ⟨r₁, ts', hr, hts, rfl⟩
    · have he : eat? ',' r₀ = none := eat?_eq_none_iff.2 (by simp [hr])
      rw [he]
      exact reads_expect_bind.2 ⟨r, hr, reads_pure.2 ⟨rfl, rfl⟩⟩
    · have he : eat? ',' r₀ = some ⟨r₁, length_lt_of_trimStart_eq_cons hr⟩ := eat?_eq_some_iff.2 hr
      rw [he]
      exact reads_map.2 ⟨ts', hts, rfl⟩

end AnnotatedApi.TypeExpr
