import AnnotatedApi.Proofs.Text.Blank
import AnnotatedApi.TypeExpr.Parser

/-! The grammar of type expressions, as derivations of texts. It leaves open to which of the suffixed
types that end at one place a `[]` or `=` belongs; a greedy derivation gives it to the innermost one
that can still take it. Main statement: every text that has a derivation has a greedy one. -/
namespace AnnotatedApi.TypeExpr.Grammar

open Text

/-- The signs of the grammar. -/
def punctuation : List Char := ['(', ')', '[', ']', '<', '>', '=', '|', ',', '.', '?', '!', '*']

theorem not_isBlank_of_mem_punctuation : ∀ c ∈ punctuation, isBlank c = false := by
  have h : punctuation.all (!isBlank ·) := by decide
  simpa using h

theorem not_isNamePart_of_mem_punctuation : ∀ c ∈ punctuation, isNamePart c = false := by
  have h : punctuation.all (!isNamePart ·) := by decide +kernel
  simpa using h

theorem isNamePart_of_isNameStart {c : Char} (h : isNameStart c) : isNamePart c := by
  simp only [isNameStart, isNamePart, Bool.or_eq_true] at h ⊢
  exact h.imp_left (Or.imp_left isAlphanumeric_of_isLetter)

theorem not_isNameStart_of_mem_punctuation {c : Char} (h : c ∈ punctuation) :
    isNameStart c = false := by
  apply eq_false_of_ne_true
  intro hs
  have hp := not_isNamePart_of_mem_punctuation c h
  rw [isNamePart_of_isNameStart hs] at hp
  contradiction

theorem ne_of_isNameStart {c d : Char} (hc : isNameStart c) (hd : d ∈ punctuation) : c ≠ d := by
  rintro rfl
  rw [not_isNameStart_of_mem_punctuation hd] at hc
  contradiction

theorem not_isNamePart_of_isBlank {c : Char} (h : isBlank c) : isNamePart c = false := by
  unfold isNamePart
  have hu : c ≠ '_' := by
    rintro rfl
    revert h
    decide
  have hd : c ≠ '$' := by
    rintro rfl
    revert h
    decide
  simp [not_isAlphanumeric_of_isBlank h, hu, hd]

/-- Name characters, and points that a name can start behind. -/
inductive NameTail : List Char → Prop
  | nil : NameTail []
  | part {c : Char} {cs : List Char} : isNamePart c → NameTail cs → NameTail (c :: cs)
  | point {c : Char} {cs : List Char} :
      isNameStart c → NameTail (c :: cs) → NameTail ('.' :: c :: cs)

/-- Any number of `[]`, around a type. -/
inductive Arrays : TypeExpr → List Char → TypeExpr → Prop
  | nil {t : TypeExpr} : Arrays t [] t
  | cons {t t' : TypeExpr} {w v : List Char} :
      Blanks w → Arrays (arrayOf t) v t' → Arrays t (w ++ '[' :: ']' :: v) t'

inductive Opening : List Char → Prop
  | angle : Opening ['<']
  | point : Opening ['.', '<']

theorem Opening.length_pos {o : List Char} (h : Opening o) : 0 < o.length := by
  cases h <;> decide

mutual

inductive Alternation (greedy : Bool) : List Char → TypeExpr → Prop
  | mk {u v : List Char} {t : TypeExpr} {ts : List TypeExpr} {full : Bool} :
      Suffixed greedy u t full → Alternatives greedy v ts →
      Alternation greedy (u ++ v) (ofAlternatives t ts)

inductive Alternatives (greedy : Bool) : List Char → List TypeExpr → Prop
  | nil : Alternatives greedy [] []
  | cons {w u v : List Char} {t : TypeExpr} {ts : List TypeExpr} {full : Bool} :
      Blanks w → Suffixed greedy u t full → Alternatives greedy v ts →
      Alternatives greedy (w ++ '|' :: (u ++ v)) (t :: ts)

/-- A suffixed type is full when it ends with its `=`. In a greedy derivation it has no suffix of its
own as long as the type that it marks is not full. -/
inductive Suffixed (greedy : Bool) : List Char → TypeExpr → (full : Bool) → Prop
  | bare {u v : List Char} {t t' : TypeExpr} {full : Bool} :
      Marked greedy u t full → Arrays t v t' → (greedy → full ∨ v = []) →
      Suffixed greedy (u ++ v) t' false
  | optional {u v w : List Char} {t t' : TypeExpr} {full : Bool} :
      Marked greedy u t full → Arrays t v t' → Blanks w → (greedy → full) →
      Suffixed greedy (u ++ (v ++ (w ++ ['=']))) (.optional t') true

/-- A marked type is full when no suffix can be added inside it. -/
inductive Marked (greedy : Bool) : List Char → TypeExpr → (full : Bool) → Prop
  | nullable {w u : List Char} {t : TypeExpr} {full : Bool} :
      Blanks w → Suffixed greedy u t full → Marked greedy (w ++ '?' :: u) (.nullable t) full
  | nonNullable {w u : List Char} {t : TypeExpr} {full : Bool} :
      Blanks w → Suffixed greedy u t full → Marked greedy (w ++ '!' :: u) (.nonNullable t) full
  | atom {w u : List Char} {t : TypeExpr} :
      Blanks w → Atom greedy u t → Marked greedy (w ++ u) t true

inductive Atom (greedy : Bool) : List Char → TypeExpr → Prop
  | parentheses {u w : List Char} {t : TypeExpr} :
      Alternation greedy u t → Blanks w → Atom greedy ('(' :: (u ++ (w ++ [')']))) t
  | any : Atom greedy ['*'] .any
  | name {c : Char} {cs : List Char} :
      isNameStart c → NameTail cs → Atom greedy (c :: cs) (.name (String.ofList (c :: cs)))
  | apply {c : Char} {cs w o v : List Char} {ts : List TypeExpr} :
      isNameStart c → NameTail cs → Blanks w → Opening o → Arguments greedy v ts →
      Atom greedy (c :: (cs ++ (w ++ (o ++ v)))) (.apply (.name (String.ofList (c :: cs))) ts)

inductive Arguments (greedy : Bool) : List Char → List TypeExpr → Prop
  | last {u w : List Char} {t : TypeExpr} :
      Alternation greedy u t → Blanks w → Arguments greedy (u ++ (w ++ ['>'])) [t]
  | cons {u w v : List Char} {t : TypeExpr} {ts : List TypeExpr} :
      Alternation greedy u t → Blanks w → Arguments greedy v ts →
      Arguments greedy (u ++ (w ++ ',' :: v)) (t :: ts)

end

/-- A whole text: an alternation, and blanks behind it. -/
inductive Whole (greedy : Bool) : List Char → TypeExpr → Prop
  | mk {u w : List Char} {t : TypeExpr} :
      Alternation greedy u t → Blanks w → Whole greedy (u ++ w) t

theorem Arrays.concat {t t' : TypeExpr} {v w : List Char} (h : Arrays t v t') (hw : Blanks w) :
    Arrays t (v ++ (w ++ ['[', ']'])) (arrayOf t') := by
  induction h with
  | nil => exact .cons hw .nil
  | cons hb _ ih =>
    simp only [List.append_assoc, List.cons_append]
    exact .cons hb ih

theorem Marked.suffixed {greedy full : Bool} {u : List Char} {t : TypeExpr}
    (h : Marked greedy u t full) : Suffixed greedy u t false := by
  simpa only [List.append_nil] using Suffixed.bare h .nil fun _ => .inr rfl

-- A greedy derivation that is not full has room for one more suffix. It goes as deep as it can: into
-- the marked type unless that is full.

mutual

theorem Suffixed.push_array {u w : List Char} {t : TypeExpr} {full : Bool} (hw : Blanks w) :
    Suffixed true u t full → full = false → ∃ t', Suffixed true (u ++ (w ++ ['[', ']'])) t' false
  | @Suffixed.bare _ u v t t' full hm ha hg, _ => by
    by_cases hf : full
    · refine ⟨arrayOf t', ?_⟩
      rw [List.append_assoc]
      exact .bare hm (ha.concat hw) fun _ => .inl hf
    · have hv : v = [] := (hg rfl).resolve_left hf
      obtain ⟨t₁, h⟩ := Marked.push_array hw hm (eq_false_of_ne_true hf)
      refine ⟨t₁, ?_⟩
      rw [hv, List.append_nil]
      exact h.suffixed

theorem Marked.push_array {u w : List Char} {t : TypeExpr} {full : Bool} (hw : Blanks w) :
    Marked true u t full → full = false → ∃ t', Marked true (u ++ (w ++ ['[', ']'])) t' false
  | .nullable hb hs, hf => by
    obtain ⟨t', h⟩ := Suffixed.push_array hw hs hf
    refine ⟨.nullable t', ?_⟩
    rw [List.append_assoc]
    exact .nullable hb h
  | .nonNullable hb hs, hf => by
    obtain ⟨t', h⟩ := Suffixed.push_array hw hs hf
    refine ⟨.nonNullable t', ?_⟩
    rw [List.append_assoc]
    exact .nonNullable hb h

end

mutual

theorem Suffixed.push_mark {u w : List Char} {t : TypeExpr} {full : Bool} (hw : Blanks w) :
    Suffixed true u t full → full = false → ∃ t' full', Suffixed true (u ++ (w ++ ['='])) t' full'
  | @Suffixed.bare _ u v t t' full hm ha hg, _ => by
    by_cases hf : full
    · refine ⟨.optional t', true, ?_⟩
      rw [List.append_assoc]
      exact .optional hm ha hw fun _ => hf
    · have hv : v = [] := (hg rfl).resolve_left hf
      obtain ⟨t₁, _, h⟩ := Marked.push_mark hw hm (eq_false_of_ne_true hf)
      refine ⟨t₁, false, ?_⟩
      rw [hv, List.append_nil]
      exact h.suffixed

theorem Marked.push_mark {u w : List Char} {t : TypeExpr} {full : Bool} (hw : Blanks w) :
    Marked true u t full → full = false → ∃ t' full', Marked true (u ++ (w ++ ['='])) t' full'
  | .nullable hb hs, hf => by
    obtain ⟨t', full', h⟩ := Suffixed.push_mark hw hs hf
    refine ⟨.nullable t', full', ?_⟩
    rw [List.append_assoc]
    exact .nullable hb h
  | .nonNullable hb hs, hf => by
    obtain ⟨t', full', h⟩ := Suffixed.push_mark hw hs hf
    refine ⟨.nonNullable t', full', ?_⟩
    rw [List.append_assoc]
    exact .nonNullable hb h

end

theorem Suffixed.push_arrays {s s' : TypeExpr} {v : List Char} (hv : Arrays s v s') :
    ∀ {u : List Char} {t : TypeExpr}, Suffixed true u t false →
      ∃ t', Suffixed true (u ++ v) t' false := by
  induction hv with
  | nil =>
    intro u t h
    exact ⟨t, by rwa [List.append_nil]⟩
  | @cons _ _ w v hw _ ih =>
    intro u t h
    obtain ⟨t₁, h₁⟩ := h.push_array hw rfl
    obtain ⟨t₂, h₂⟩ := ih h₁
    refine ⟨t₂, ?_⟩
    simpa only [List.append_assoc, List.cons_append, List.nil_append] using h₂

-- Every derivation can be made greedy. The types that it gives to a text may change.

mutual

theorem Alternation.make_greedy {greedy : Bool} {u : List Char} {t : TypeExpr} :
    Alternation greedy u t → ∃ t', Alternation true u t'
  | .mk hs ha => by
    obtain ⟨t', full', hs'⟩ := hs.make_greedy
    obtain ⟨ts', ha'⟩ := ha.make_greedy
    exact ⟨_, .mk hs' ha'⟩

theorem Alternatives.make_greedy {greedy : Bool} {u : List Char} {ts : List TypeExpr} :
    Alternatives greedy u ts → ∃ ts', Alternatives true u ts'
  | .nil => ⟨[], .nil⟩
  | .cons hw hs ha => by
    obtain ⟨t', full', hs'⟩ := hs.make_greedy
    obtain ⟨ts', ha'⟩ := ha.make_greedy
    exact ⟨_, .cons hw hs' ha'⟩

theorem Suffixed.make_greedy {greedy full : Bool} {u : List Char} {t : TypeExpr} :
    Suffixed greedy u t full → ∃ t' full', Suffixed true u t' full'
  | .bare hm ha _ => by
    obtain ⟨t', full', hm'⟩ := hm.make_greedy
    obtain ⟨t'', h⟩ := Suffixed.push_arrays ha hm'.suffixed
    exact ⟨t'', false, h⟩
  | .optional hm ha hw _ => by
    obtain ⟨t', full', hm'⟩ := hm.make_greedy
    obtain ⟨t'', h⟩ := Suffixed.push_arrays ha hm'.suffixed
    obtain ⟨t₃, full₃, h₃⟩ := h.push_mark hw rfl
    exact ⟨t₃, full₃, by rwa [List.append_assoc] at h₃⟩

theorem Marked.make_greedy {greedy full : Bool} {u : List Char} {t : TypeExpr} :
    Marked greedy u t full → ∃ t' full', Marked true u t' full'
  | .nullable hw hs => by
    obtain ⟨t', full', hs'⟩ := hs.make_greedy
    exact ⟨_, _, .nullable hw hs'⟩
  | .nonNullable hw hs => by
    obtain ⟨t', full', hs'⟩ := hs.make_greedy
    exact ⟨_, _, .nonNullable hw hs'⟩
  | .atom hw ha => by
    obtain ⟨t', ha'⟩ := ha.make_greedy
    exact ⟨_, _, .atom hw ha'⟩

theorem Atom.make_greedy {greedy : Bool} {u : List Char} {t : TypeExpr} :
    Atom greedy u t → ∃ t', Atom true u t'
  | .parentheses ha hw => by
    obtain ⟨t', ha'⟩ := ha.make_greedy
    exact ⟨t', .parentheses ha' hw⟩
  | .any => ⟨_, .any⟩
  | .name hc hcs => ⟨_, .name hc hcs⟩
  | .apply hc hcs hw ho hv => by
    obtain ⟨ts', hv'⟩ := hv.make_greedy
    exact ⟨_, .apply hc hcs hw ho hv'⟩

theorem Arguments.make_greedy {greedy : Bool} {u : List Char} {ts : List TypeExpr} :
    Arguments greedy u ts → ∃ ts', Arguments true u ts'
  | .last ha hw => by
    obtain ⟨t', ha'⟩ := ha.make_greedy
    exact ⟨_, .last ha' hw⟩
  | .cons ha hw hv => by
    obtain ⟨t', ha'⟩ := ha.make_greedy
    obtain ⟨ts', hv'⟩ := hv.make_greedy
    exact ⟨_, .cons ha' hw hv'⟩

end

mutual

theorem Alternation.relax {u : List Char} {t : TypeExpr} :
    Alternation true u t → Alternation false u t
  | .mk hs ha => .mk hs.relax ha.relax

theorem Alternatives.relax {u : List Char} {ts : List TypeExpr} :
    Alternatives true u ts → Alternatives false u ts
  | .nil => .nil
  | .cons hw hs ha => .cons hw hs.relax ha.relax

theorem Suffixed.relax {u : List Char} {t : TypeExpr} {full : Bool} :
    Suffixed true u t full → Suffixed false u t full
  | .bare hm ha _ => .bare hm.relax ha (fun h => absurd h Bool.false_ne_true)
  | .optional hm ha hw _ => .optional hm.relax ha hw (fun h => absurd h Bool.false_ne_true)

theorem Marked.relax {u : List Char} {t : TypeExpr} {full : Bool} :
    Marked true u t full → Marked false u t full
  | .nullable hw hs => .nullable hw hs.relax
  | .nonNullable hw hs => .nonNullable hw hs.relax
  | .atom hw ha => .atom hw ha.relax

theorem Atom.relax {u : List Char} {t : TypeExpr} : Atom true u t → Atom false u t
  | .parentheses ha hw => .parentheses ha.relax hw
  | .any => .any
  | .name hc hcs => .name hc hcs
  | .apply hc hcs hw ho hv => .apply hc hcs hw ho hv.relax

theorem Arguments.relax {u : List Char} {ts : List TypeExpr} :
    Arguments true u ts → Arguments false u ts
  | .last ha hw => .last ha.relax hw
  | .cons ha hw hv => .cons ha.relax hw hv.relax

end

theorem Whole.relax {s : List Char} {t : TypeExpr} (h : Whole true s t) : Whole false s t := by
  obtain ⟨ha, hw⟩ := h
  exact .mk ha.relax hw

theorem Whole.make_greedy {greedy : Bool} {s : List Char} {t : TypeExpr} (h : Whole greedy s t) :
    ∃ t', Whole true s t' := by
  obtain ⟨ha, hw⟩ := h
  obtain ⟨t', ha'⟩ := ha.make_greedy
  exact ⟨t', .mk ha' hw⟩

end AnnotatedApi.TypeExpr.Grammar
