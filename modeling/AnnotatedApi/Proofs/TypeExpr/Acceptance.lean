import AnnotatedApi.Proofs.TypeExpr.Reading

/-! Reading a type expression accepts the texts that have a derivation, and its result is the type of
the greedy one. Reading never goes back, so a phrase is read to its end only if what follows cannot
extend it; the signs that may follow a phrase are listed here. -/
namespace AnnotatedApi.TypeExpr

open Text Grammar

/-- The next token of a text, if there is one, is among these. -/
def Follows (signs s : List Char) : Prop := ∀ c, (trimStart s).head? = some c → c ∈ signs

/-- The signs that end an alternation. -/
def closing : List Char := [')', ',', '>']

/-- The signs that can follow a suffixed type. One that is not full would take `[]` and `=` itself. -/
def following (full : Bool) : List Char := if full then '[' :: '=' :: '|' :: closing else '|' :: closing

private theorem mem_punctuation_of_mem_following {full : Bool} {c : Char} (h : c ∈ following full) :
    c ∈ punctuation := by
  cases full <;> simp [following, closing, punctuation] at h ⊢ <;> grind

theorem Follows.mono {signs signs' s : List Char} (h : Follows signs s) (hs : signs ⊆ signs') :
    Follows signs' s :=
  fun c hc => hs (h c hc)

theorem follows_sign {signs w s : List Char} {c : Char} (hw : Blanks w) (hp : c ∈ punctuation)
    (hc : c ∈ signs) : Follows signs (w ++ c :: s) := by
  intro d hd
  rw [hw.trimStart_append, trimStart_cons_of_not_isBlank (not_isBlank_of_mem_punctuation c hp)] at hd
  rwa [← Option.some.inj hd]

private theorem follows_of_trimStart_eq_nil {signs s : List Char} (h : trimStart s = []) :
    Follows signs s := by
  intro c hc
  simp [h] at hc

theorem Follows.head?_ne {signs s : List Char} {c : Char} (h : Follows signs s) (hc : c ∉ signs) :
    (trimStart s).head? ≠ some c :=
  fun hs => hc (h c hs)

theorem Follows.brackets?_eq_none {s : List Char} (h : Follows (following false) s) :
    brackets? s = none := by
  rw [Option.eq_none_iff_forall_ne_some]
  intro r hr
  have hs := brackets?_eq_some_iff.1 hr
  exact h.head?_ne (c := '[') (by decide) (by rw [hs]; rfl)

theorem Follows.opening?_eq_none {s : List Char} (h : Follows (following true) s) :
    opening? s = none := by
  rw [Option.eq_none_iff_forall_ne_some]
  intro r hr
  obtain ⟨o, ho, hs⟩ := opening?_eq_some_iff.1 hr
  cases ho with
  | angle => exact h.head?_ne (c := '<') (by decide) (by rw [hs]; rfl)
  | point => exact h.head?_ne (c := '.') (by decide) (by rw [hs]; rfl)

theorem not_extendsName_of_isBlank {c : Char} (h : isBlank c) (s : List Char) :
    extendsName (c :: s) = false := by
  have hp : c ≠ '.' := by
    rintro rfl
    exact absurd h (by decide)
  simp [extendsName, not_isNamePart_of_isBlank h, hp]

theorem Follows.not_extendsName {s : List Char} (h : Follows (following true) s) :
    extendsName s = false := by
  cases s with
  | nil => rfl
  | cons c s =>
    by_cases hb : isBlank c
    · exact not_extendsName_of_isBlank hb s
    · have hm : c ∈ following true := by
        apply h
        rw [trimStart_cons_of_not_isBlank (eq_false_of_ne_true hb), List.head?_cons]
      have hp : c ≠ '.' := by
        rintro rfl
        exact absurd hm (by decide)
      simp [extendsName, not_isNamePart_of_mem_punctuation c (mem_punctuation_of_mem_following hm), hp]

theorem Grammar.Opening.not_extendsName {w o : List Char} (ho : Opening o) (hw : Blanks w)
    (s : List Char) : extendsName (w ++ (o ++ s)) = false := by
  cases w with
  | cons c w => exact not_extendsName_of_isBlank (hw c List.mem_cons_self) _
  | nil =>
    have ha := not_isNamePart_of_mem_punctuation '<' (by decide)
    have hp := not_isNamePart_of_mem_punctuation '.' (by decide)
    have hs := not_isNameStart_of_mem_punctuation (c := '<') (by decide)
    cases ho <;> simp [extendsName, ha, hp, hs]

theorem Grammar.Opening.trimStart_append {w o : List Char} (ho : Opening o) (hw : Blanks w)
    (s : List Char) : trimStart (w ++ (o ++ s)) = o ++ s := by
  cases ho <;> exact hw.trimStart_append_cons (by decide) _

theorem Grammar.NameTail.reads {cs r : List Char} (h : NameTail cs) (hr : extendsName r = false) :
    (nameTail (cs ++ r)).1 = cs ∧ (nameTail (cs ++ r)).2.1 = r := by
  induction h with
  | nil =>
    cases r with
    | nil => exact ⟨rfl, rfl⟩
    | cons c r =>
      rw [List.nil_append]
      exact nameTail_end hr
  | part hc _ ih =>
    obtain ⟨h₁, h₂⟩ := nameTail_step (extendsName_part hc _)
    rw [List.cons_append, h₁, h₂]
    exact ⟨congrArg _ ih.1, ih.2⟩
  | point hc _ ih =>
    obtain ⟨h₁, h₂⟩ := nameTail_step (extendsName_point hc _)
    rw [List.cons_append, List.cons_append, h₁, h₂]
    exact ⟨congrArg _ ih.1, ih.2⟩

/-- An atom starts with a parenthesis, a star, or a character that starts a name. -/
theorem Grammar.Atom.head {greedy : Bool} {u : List Char} {t : TypeExpr} (h : Atom greedy u t) :
    ∃ c u', u = c :: u' ∧ isBlank c = false ∧ c ≠ '?' ∧ c ≠ '!' := by
  cases h with
  | parentheses => exact ⟨'(', _, rfl, by decide⟩
  | any => exact ⟨'*', _, rfl, by decide⟩
  | name hc | apply hc =>
    refine ⟨_, _, rfl, ?_, ne_of_isNameStart hc (by decide), ne_of_isNameStart hc (by decide)⟩
    apply eq_false_of_ne_true
    intro hb
    have hp := not_isNamePart_of_isBlank hb
    rw [isNamePart_of_isNameStart hc] at hp
    contradiction

theorem Grammar.Arrays.follows {t t' : TypeExpr} {v r : List Char} {full : Bool} (h : Arrays t v t')
    (hv : full ∨ v = []) (hr : Follows (following full) r) : Follows (following full) (v ++ r) := by
  cases h with
  | nil => exact hr
  | cons hw _ =>
    have hf : full = true := hv.resolve_right (by simp)
    rw [hf, List.append_assoc]
    exact follows_sign hw (by decide) (by decide)

theorem Grammar.Alternatives.follows {greedy : Bool} {v r : List Char} {ts : List TypeExpr}
    (h : Alternatives greedy v ts) (hr : Follows closing r) : Follows ('|' :: closing) (v ++ r) := by
  cases h with
  | nil => exact hr.mono (List.subset_cons_self _ _)
  | cons hw _ _ =>
    rw [List.append_assoc]
    exact follows_sign hw (by decide) (by decide)

theorem following_false_subset (full : Bool) : following false ⊆ following full := by
  cases full <;> simp [following]

mutual

theorem Grammar.Alternation.reads {u r : List Char} {t : TypeExpr} :
    Alternation true u t → Follows closing r → Reads (alternation (u ++ r)) t r
  | @Alternation.mk _ u v t ts full hs ha, hr => by
    have hf := (ha.follows hr).mono (following_false_subset full)
    rw [List.append_assoc]
    exact reads_alternation.2 ⟨t, v ++ r, ts, hs.reads hf, ha.reads hr, rfl⟩

theorem Grammar.Alternatives.reads {u r : List Char} {ts : List TypeExpr} :
    Alternatives true u ts → Follows closing r → Reads (alternatives (u ++ r)) ts r
  | .nil, hr => by
    exact (reads_alternatives_end (hr.head?_ne (by decide))).2 ⟨rfl, rfl⟩
  | @Alternatives.cons _ w u v t ts full hw hs ha, hr => by
    have hf := (ha.follows hr).mono (following_false_subset full)
    have hb : trimStart (w ++ '|' :: (u ++ v) ++ r) = '|' :: (u ++ (v ++ r)) := by
      rw [List.append_assoc, List.cons_append, List.append_assoc]
      exact hw.trimStart_append_cons (by decide) _
    exact (reads_alternatives_bar hb).2 ⟨t, v ++ r, ts, hs.reads hf, ha.reads hr, rfl⟩

theorem Grammar.Suffixed.reads {u r : List Char} {t : TypeExpr} {full : Bool} :
    Suffixed true u t full → Follows (following full) r → Reads (suffixed (u ++ r)) t r
  | @Suffixed.bare _ u v t t' full hm ha hg, hr => by
    have hf : Follows (following full) (v ++ r) :=
      ha.follows (hg rfl) (hr.mono (following_false_subset full))
    obtain ⟨hat, har⟩ := ha.reads hr.brackets?_eq_none
    rw [List.append_assoc]
    refine reads_suffixed.2 ⟨t, v ++ r, hm.reads hf, ?_⟩
    rw [hat, har, mark_end (hr.head?_ne (by decide))]
    exact ⟨rfl, rfl⟩
  | @Suffixed.optional _ u v w t t' full hm ha hw hg, _ => by
    have hr : trimStart (w ++ '=' :: r) = '=' :: r :=
      hw.trimStart_append_cons (by decide) _
    have hf : Follows (following full) (v ++ (w ++ '=' :: r)) :=
      ha.follows (.inl (hg rfl)) (follows_sign hw (by decide) (by rw [hg rfl]; decide))
    have hb : brackets? (w ++ '=' :: r) = none := by
      rw [Option.eq_none_iff_forall_ne_some]
      intro r' h
      have := brackets?_eq_some_iff.1 h
      rw [hr] at this
      simp at this
    obtain ⟨hat, har⟩ := ha.reads hb
    rw [List.append_assoc, List.append_assoc, List.append_assoc, List.singleton_append]
    refine reads_suffixed.2 ⟨t, v ++ (w ++ '=' :: r), hm.reads hf, ?_⟩
    rw [hat, har]
    exact ⟨(mark_eq hr).1.symm, (mark_eq hr).2.symm⟩

theorem Grammar.Marked.reads {u r : List Char} {t : TypeExpr} {full : Bool} :
    Marked true u t full → Follows (following full) r → Reads (marked (u ++ r)) t r
  | @Marked.nullable _ w u t full hw hs, hr => by
    have ht : trimStart (w ++ '?' :: u ++ r) = '?' :: (u ++ r) := by
      rw [List.append_assoc]
      exact hw.trimStart_append_cons (by decide) _
    exact (reads_marked_nullable ht).2 ⟨t, hs.reads hr, rfl⟩
  | @Marked.nonNullable _ w u t full hw hs, hr => by
    have ht : trimStart (w ++ '!' :: u ++ r) = '!' :: (u ++ r) := by
      rw [List.append_assoc]
      exact hw.trimStart_append_cons (by decide) _
    exact (reads_marked_nonNullable ht).2 ⟨t, hs.reads hr, rfl⟩
  | @Marked.atom _ w u t hw ha, hr => by
    obtain ⟨c, u', hu, hb, hq, hn⟩ := ha.head
    have ht : trimStart (w ++ u ++ r) = u ++ r := by
      rw [List.append_assoc, hw.trimStart_append, hu]
      exact trimStart_cons_of_not_isBlank hb _
    have hc : (trimStart (w ++ u ++ r)).head? = some c := by
      rw [ht, hu]
      rfl
    rw [marked_eq_atom (by rw [hc]; simpa using hq) (by rw [hc]; simpa using hn)]
    exact ha.reads ht hr

theorem Grammar.Atom.reads {u r s : List Char} {t : TypeExpr} :
    Atom true u t → trimStart s = u ++ r → Follows (following true) r → Reads (atom s) t r
  | @Atom.parentheses _ u w t ha hw, hs, _ => by
    have hr : trimStart (w ++ ')' :: r) = ')' :: r :=
      hw.trimStart_append_cons (by decide) _
    rw [List.cons_append, List.append_assoc, List.append_assoc, List.singleton_append] at hs
    exact (reads_atom_parentheses hs).2
      ⟨w ++ ')' :: r, ha.reads (follows_sign hw (by decide) (by decide)), hr⟩
  | .any, hs, _ => (reads_atom_any hs).2 ⟨rfl, rfl⟩
  | @Atom.name _ c cs hc hcs, hs, hr => by
    obtain ⟨hn, hnr⟩ := hcs.reads hr.not_extendsName
    rw [List.cons_append] at hs
    refine (reads_atom_name hs hc ?_).2 ?_
    · rw [hnr]
      exact hr.opening?_eq_none
    · rw [hn, hnr]
      exact ⟨rfl, rfl⟩
  | @Atom.apply _ c cs w o v ts hc hcs hw ho hv, hs, _ => by
    obtain ⟨hn, hnr⟩ := hcs.reads (ho.not_extendsName hw (v ++ r))
    simp only [List.cons_append, List.append_assoc] at hs
    refine (reads_atom_apply hs hc ho ?_).2 ⟨ts, hv.reads, ?_⟩
    · rw [hnr]
      exact ho.trimStart_append hw _
    · rw [hn]

theorem Grammar.Arguments.reads {u r : List Char} {ts : List TypeExpr} :
    Arguments true u ts → Reads (arguments (u ++ r)) ts r
  | @Arguments.last _ u w t ha hw => by
    have hr : trimStart (w ++ '>' :: r) = '>' :: r :=
      hw.trimStart_append_cons (by decide) _
    rw [List.append_assoc, List.append_assoc, List.singleton_append]
    exact reads_arguments.2 ⟨t, w ++ '>' :: r, ha.reads (follows_sign hw (by decide) (by decide)),
      .inl ⟨hr, rfl⟩⟩
  | @Arguments.cons _ u w v t ts ha hw hv => by
    have hr : trimStart (w ++ ',' :: (v ++ r)) = ',' :: (v ++ r) :=
      hw.trimStart_append_cons (by decide) _
    rw [List.append_assoc, List.append_assoc, List.cons_append]
    exact reads_arguments.2 ⟨t, w ++ ',' :: (v ++ r),
      ha.reads (follows_sign hw (by decide) (by decide)), .inr ⟨v ++ r, ts, hr, hv.reads, rfl⟩⟩

end

-- What is read has a greedy derivation. The induction is on the length of the text: a step on the
-- same text is one level down in the grammar, and all other steps are on shorter texts.

def NoSuffix (s : List Char) : Prop := brackets? s = none ∧ (trimStart s).head? ≠ some '='

/-- What is read from a text is derived. A suffixed type that is not full has taken all suffixes. -/
structure Derived (s : List Char) : Prop where
  alternation : ∀ {t r}, Reads (alternation s) t r → ∃ u, s = u ++ r ∧ Alternation true u t
  alternatives : ∀ {ts r}, Reads (alternatives s) ts r → ∃ u, s = u ++ r ∧ Alternatives true u ts
  suffixed : ∀ {t r}, Reads (suffixed s) t r →
    ∃ u full, s = u ++ r ∧ Suffixed true u t full ∧ (full ∨ NoSuffix r)
  arguments : ∀ {ts r}, Reads (arguments s) ts r → ∃ u, s = u ++ r ∧ Arguments true u ts

section

variable {s r : List Char} (ih : ∀ r, r.length < s.length → Derived r)

include ih

theorem atom_derives {t : TypeExpr} (h : Reads (atom s) t r) :
    ∃ w u, s = w ++ (u ++ r) ∧ Blanks w ∧ Atom true u t := by
  obtain ⟨c, r₀, ht, hc⟩ := head_of_reads_atom h
  obtain ⟨w, hw, hs⟩ := exists_blanks_append_trimStart s
  have hl := length_lt_of_trimStart_eq_cons ht
  rw [ht] at hs
  rcases hc with rfl | rfl | hc
  · obtain ⟨r₁, ha, hr⟩ := (reads_atom_parentheses ht).1 h
    obtain ⟨u, rfl, hu⟩ := (ih r₀ hl).alternation ha
    obtain ⟨w', hw', hs'⟩ := exists_blanks_append_trimStart r₁
    refine ⟨w, '(' :: (u ++ (w' ++ [')'])), ?_, hw, .parentheses hu hw'⟩
    rw [hs, hs', hr]
    simp
  · obtain ⟨rfl, rfl⟩ := (reads_atom_any ht).1 h
    exact ⟨w, ['*'], hs, hw, .any⟩
  · obtain ⟨hn, hr₀⟩ := nameTail_derives r₀
    cases ho : opening? (nameTail r₀).2.1 with
    | none =>
      obtain ⟨rfl, rfl⟩ := (reads_atom_name ht hc ho).1 h
      refine ⟨w, c :: (nameTail r₀).1, ?_, hw, .name hc hn⟩
      rw [List.cons_append, ← hr₀]
      exact hs
    | some r₁ =>
      obtain ⟨o, hop, hr⟩ := opening?_eq_some_iff.1 ho
      obtain ⟨ts, ha, rfl⟩ := (reads_atom_apply ht hc hop hr).1 h
      have hl₁ : r₁.1.length < s.length :=
        Nat.lt_of_lt_of_le r₁.2 (Nat.le_trans (nameTail r₀).2.2 (Nat.le_of_lt hl))
      obtain ⟨v, hv, hvs⟩ := (ih r₁.1 hl₁).arguments ha
      obtain ⟨w', hw', hs'⟩ := exists_blanks_append_trimStart (nameTail r₀).2.1
      refine ⟨w, c :: ((nameTail r₀).1 ++ (w' ++ (o ++ v))), ?_, hw, .apply hc hn hw' hop hvs⟩
      simp only [List.cons_append, List.append_assoc]
      rw [← hv, ← hr, ← hs', ← hr₀]
      exact hs

theorem marked_derives {t : TypeExpr} (h : Reads (marked s) t r) :
    ∃ u full, s = u ++ r ∧ Marked true u t full ∧ (full ∨ NoSuffix r) := by
  obtain ⟨w, hw, hs⟩ := exists_blanks_append_trimStart s
  by_cases hq : (trimStart s).head? = some '?'
  · obtain ⟨r₀, ht⟩ := List.head?_eq_some_iff.1 hq
    obtain ⟨t₀, h₀, rfl⟩ := (reads_marked_nullable ht).1 h
    obtain ⟨u, full, rfl, hu, hn⟩ := (ih r₀ (length_lt_of_trimStart_eq_cons ht)).suffixed h₀
    refine ⟨w ++ '?' :: u, full, ?_, .nullable hw hu, hn⟩
    rw [hs, ht, List.append_assoc, List.cons_append]
  · by_cases hn : (trimStart s).head? = some '!'
    · obtain ⟨r₀, ht⟩ := List.head?_eq_some_iff.1 hn
      obtain ⟨t₀, h₀, rfl⟩ := (reads_marked_nonNullable ht).1 h
      obtain ⟨u, full, rfl, hu, hn⟩ := (ih r₀ (length_lt_of_trimStart_eq_cons ht)).suffixed h₀
      refine ⟨w ++ '!' :: u, full, ?_, .nonNullable hw hu, hn⟩
      rw [hs, ht, List.append_assoc, List.cons_append]
    · rw [marked_eq_atom hq hn] at h
      obtain ⟨w', u, hs', hw', hu⟩ := atom_derives ih h
      refine ⟨w' ++ u, true, ?_, .atom hw' hu, .inl rfl⟩
      rw [hs', List.append_assoc]

theorem suffixed_derives {t : TypeExpr} (h : Reads (suffixed s) t r) :
    ∃ u full, s = u ++ r ∧ Suffixed true u t full ∧ (full ∨ NoSuffix r) := by
  obtain ⟨t₀, r₀, hm, rfl, rfl⟩ := reads_suffixed.1 h
  obtain ⟨u, full, hs, hu, hn⟩ := marked_derives ih hm
  by_cases hf : full
  · obtain ⟨v, hv, ha, hb⟩ := arrays_derives t₀ r₀
    by_cases he : (trimStart (arrays t₀ r₀).2.1).head? = some '='
    · obtain ⟨r₁, hr₁⟩ := List.head?_eq_some_iff.1 he
      obtain ⟨w, hw, hws⟩ := exists_blanks_append_trimStart (arrays t₀ r₀).2.1
      rw [(mark_eq hr₁).1, (mark_eq hr₁).2]
      refine ⟨u ++ (v ++ (w ++ ['='])), true, ?_, .optional hu ha hw fun _ => hf, .inl rfl⟩
      simp only [List.append_assoc, List.singleton_append]
      rw [← hr₁, ← hws, ← hv]
      exact hs
    · rw [mark_end he]
      refine ⟨u ++ v, false, ?_, .bare hu ha fun _ => .inl hf, .inr ⟨hb, he⟩⟩
      rw [List.append_assoc, ← hv]
      exact hs
  · obtain ⟨hb, he⟩ := hn.resolve_left hf
    rw [arrays_end hb, mark_end he]
    exact ⟨u, false, hs, hu.suffixed, .inr ⟨hb, he⟩⟩

theorem alternation_derives {t : TypeExpr} (h : Reads (alternation s) t r) :
    ∃ u, s = u ++ r ∧ Alternation true u t := by
  obtain ⟨t₀, r₀, ts, hs, ha, rfl⟩ := reads_alternation.1 h
  obtain ⟨u, full, hu, hsu, _⟩ := suffixed_derives ih hs
  obtain ⟨hl, _⟩ := hs
  obtain ⟨v, rfl, hv⟩ := (ih r₀ hl).alternatives ha
  exact ⟨u ++ v, by rw [hu, List.append_assoc], .mk hsu hv⟩

theorem alternatives_derives {ts : List TypeExpr} (h : Reads (alternatives s) ts r) :
    ∃ u, s = u ++ r ∧ Alternatives true u ts := by
  by_cases hb : (trimStart s).head? = some '|'
  · obtain ⟨r₀, ht⟩ := List.head?_eq_some_iff.1 hb
    obtain ⟨t, r₁, ts', hs, ha, rfl⟩ := (reads_alternatives_bar ht).1 h
    have hl := length_lt_of_trimStart_eq_cons ht
    obtain ⟨u, full, hu, hsu, _⟩ := (ih r₀ hl).suffixed hs
    obtain ⟨hl', _⟩ := hs
    obtain ⟨v, rfl, hv⟩ := (ih r₁ (Nat.lt_trans hl' hl)).alternatives ha
    obtain ⟨w, hw, hws⟩ := exists_blanks_append_trimStart s
    refine ⟨w ++ '|' :: (u ++ v), ?_, .cons hw hsu hv⟩
    rw [hws, ht, hu]
    simp
  · obtain ⟨rfl, rfl⟩ := (reads_alternatives_end hb).1 h
    exact ⟨[], rfl, .nil⟩

theorem arguments_derives {ts : List TypeExpr} (h : Reads (arguments s) ts r) :
    ∃ u, s = u ++ r ∧ Arguments true u ts := by
  obtain ⟨t, r₀, ha, h⟩ := reads_arguments.1 h
  obtain ⟨u, hu, hsu⟩ := alternation_derives ih ha
  obtain ⟨hl, _⟩ := ha
  obtain ⟨w, hw, hws⟩ := exists_blanks_append_trimStart r₀
  rcases h with ⟨hr, rfl⟩ | ⟨r₁, ts', hr, hts, rfl⟩
  · refine ⟨u ++ (w ++ ['>']), ?_, .last hsu hw⟩
    rw [hu, hws, hr]
    simp
  · have hl' := length_lt_of_trimStart_eq_cons hr
    obtain ⟨v, rfl, hv⟩ := (ih r₁ (Nat.lt_trans hl' hl)).arguments hts
    refine ⟨u ++ (w ++ ',' :: v), ?_, .cons hsu hw hv⟩
    rw [hu, hws, hr]
    simp

end

theorem derived (s : List Char) : Derived s :=
  have ih : ∀ r, r.length < s.length → Derived r := fun r _ => derived r
  ⟨alternation_derives ih, alternatives_derives ih, suffixed_derives ih, arguments_derives ih⟩
termination_by s.length

private theorem trimStart_ne_nil_of_reads {s r : List Char} {t : TypeExpr}
    (h : Reads (alternation s) t r) : trimStart s ≠ [] := by
  obtain ⟨t₀, r₀, _, hs, _⟩ := reads_alternation.1 h
  obtain ⟨t₁, r₁, hm, _⟩ := reads_suffixed.1 hs
  intro hn
  rw [marked_eq_atom (by rw [hn]; decide) (by rw [hn]; decide)] at hm
  obtain ⟨c, r₂, hc, _⟩ := head_of_reads_atom hm
  rw [hn] at hc
  contradiction

theorem parseChars_eq_ok_iff_reads {s : List Char} {t : TypeExpr} :
    parseChars s = .ok t ↔ ∃ r, Reads (alternation s) t r ∧ trimStart r = [] := by
  unfold parseChars
  constructor
  · intro h
    split at h
    · contradiction
    · split at h
      next => contradiction
      next t' r hr ha =>
        split at h
        next he =>
          cases h
          exact ⟨r, ⟨hr, ha⟩, List.isEmpty_iff.1 he⟩
        next => contradiction
  · rintro ⟨r, h, hr⟩
    have hs := trimStart_ne_nil_of_reads h
    obtain ⟨hl, ha⟩ := h
    rw [if_neg (by rwa [List.isEmpty_iff]), ha]
    dsimp only
    rw [if_pos (by rw [hr]; rfl)]

theorem parseChars_eq_ok_iff {s : List Char} {t : TypeExpr} :
    parseChars s = .ok t ↔ Whole true s t := by
  rw [parseChars_eq_ok_iff_reads]
  constructor
  · rintro ⟨r, h, hr⟩
    obtain ⟨u, rfl, hu⟩ := (derived s).alternation h
    obtain ⟨w, hw, hs⟩ := exists_blanks_append_trimStart r
    rw [hr, List.append_nil] at hs
    exact .mk hu (hs ▸ hw)
  · rintro ⟨hu, hw⟩
    have hr := hw.trimStart_eq_nil
    exact ⟨_, hu.reads (follows_of_trimStart_eq_nil hr), hr⟩

/-- Reading accepts exactly the texts that have a derivation, although it never goes back, and gives
the type of the greedy derivation. -/
theorem parse_accepts_derivable (source : String) :
    ((∃ t, parse source = .ok t) ↔ ∃ t, Whole false source.toList t) ∧
      ∀ t, parse source = .ok t ↔ Whole true source.toList t := by
  have hgreedy : ∀ t, parse source = .ok t ↔ Whole true source.toList t :=
    fun t => parseChars_eq_ok_iff
  refine ⟨⟨?_, ?_⟩, hgreedy⟩
  · rintro ⟨t, h⟩
    exact ⟨t, ((hgreedy t).1 h).relax⟩
  · rintro ⟨t, h⟩
    obtain ⟨t', h'⟩ := h.make_greedy
    exact ⟨t', (hgreedy t').2 h'⟩

end AnnotatedApi.TypeExpr
