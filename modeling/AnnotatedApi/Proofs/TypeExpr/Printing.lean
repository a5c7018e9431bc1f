import AnnotatedApi.Proofs.TypeExpr.Acceptance

/-! Writing a type expression with every part in parentheses. Main statement: the types that some text
is read as are the writable ones, and each of them is read back from what is written. Neither what is
written nor what is read holds a brace. -/
namespace AnnotatedApi.TypeExpr

open Text Grammar

mutual

/-- The text of a type. What `?`, `!` and `=` apply to stands in parentheses, and so does a union. -/
def print : TypeExpr → List Char
  | name n => n.toList
  | optional t => '(' :: (print t ++ [')', '='])
  | union ts => '(' :: (printAll '|' ts ++ [')'])
  | apply c ts => print c ++ '<' :: (printAll ',' ts ++ ['>'])
  | nullable t => '?' :: '(' :: (print t ++ [')'])
  | nonNullable t => '!' :: '(' :: (print t ++ [')'])
  | any => ['*']

def printAll (sign : Char) : List TypeExpr → List Char
  | [] => []
  | [t] => print t
  | t :: ts => print t ++ sign :: printAll sign ts

end

def IsName (cs : List Char) : Prop := ∃ c tail, cs = c :: tail ∧ isNameStart c ∧ NameTail tail

/-- A type that a text can express: names are dotted names, a union has at least two alternatives, and
what is applied is a name, to at least one argument. -/
inductive Writable : TypeExpr → Prop
  | name {n : String} : IsName n.toList → Writable (name n)
  | optional {t : TypeExpr} : Writable t → Writable (optional t)
  | union {ts : List TypeExpr} : 2 ≤ ts.length → (∀ t ∈ ts, Writable t) → Writable (union ts)
  | apply {n : String} {ts : List TypeExpr} :
      IsName n.toList → ts ≠ [] → (∀ t ∈ ts, Writable t) → Writable (apply (.name n) ts)
  | nullable {t : TypeExpr} : Writable t → Writable (nullable t)
  | nonNullable {t : TypeExpr} : Writable t → Writable (nonNullable t)
  | any : Writable any

theorem nameTail_of_all {cs : List Char} (h : cs.all isNamePart) : NameTail cs := by
  induction cs with
  | nil => exact .nil
  | cons c cs ih =>
    obtain ⟨hc, hcs⟩ := Bool.and_eq_true_iff.1 h
    exact .part hc (ih hcs)

theorem isName_of_all {cs : List Char} (hc : cs.head?.any isNameStart) (h : cs.all isNamePart) :
    IsName cs := by
  cases cs with
  | nil => exact absurd hc Bool.false_ne_true
  | cons c cs => exact ⟨c, cs, rfl, hc, nameTail_of_all (Bool.and_eq_true_iff.1 h).2⟩

theorem isName_Array : IsName "Array".toList :=
  isName_of_all (by decide +kernel) (by decide +kernel)

theorem Writable.arrayOf {t : TypeExpr} (h : Writable t) : Writable (arrayOf t) :=
  .apply isName_Array (List.cons_ne_nil _ _) (by simpa using h)

theorem Writable.ofAlternatives {t : TypeExpr} {ts : List TypeExpr} (h : Writable t)
    (hs : ∀ t ∈ ts, Writable t) : Writable (ofAlternatives t ts) := by
  cases ts with
  | nil => exact h
  | cons t' ts =>
    refine .union (by simp) ?_
    intro t₁ h₁
    rcases List.mem_cons.1 h₁ with rfl | h₁
    · exact h
    · exact hs t₁ h₁

theorem Grammar.Arrays.writable {t t' : TypeExpr} {v : List Char} (ha : Arrays t v t') :
    Writable t → Writable t' := by
  induction ha with
  | nil => exact id
  | cons _ _ ih => exact fun h => ih h.arrayOf

mutual

theorem Grammar.Alternation.writable {greedy : Bool} {u : List Char} {t : TypeExpr} :
    Alternation greedy u t → Writable t
  | .mk hs ha => hs.writable.ofAlternatives ha.writable

theorem Grammar.Alternatives.writable {greedy : Bool} {u : List Char} {ts : List TypeExpr} :
    Alternatives greedy u ts → ∀ t ∈ ts, Writable t
  | .nil => by simp
  | .cons _ hs ha => List.forall_mem_cons.2 ⟨hs.writable, ha.writable⟩

theorem Grammar.Suffixed.writable {greedy full : Bool} {u : List Char} {t : TypeExpr} :
    Suffixed greedy u t full → Writable t
  | .bare hm ha _ => ha.writable hm.writable
  | .optional hm ha _ _ => .optional (ha.writable hm.writable)

theorem Grammar.Marked.writable {greedy full : Bool} {u : List Char} {t : TypeExpr} :
    Marked greedy u t full → Writable t
  | .nullable _ hs => .nullable hs.writable
  | .nonNullable _ hs => .nonNullable hs.writable
  | .atom _ ha => ha.writable

theorem Grammar.Atom.writable {greedy : Bool} {u : List Char} {t : TypeExpr} :
    Atom greedy u t → Writable t
  | .parentheses ha _ => ha.writable
  | .any => .any
  | .name hc hcs => .name ⟨_, _, String.toList_ofList, hc, hcs⟩
  | .apply hc hcs _ _ hv =>
    .apply ⟨_, _, String.toList_ofList, hc, hcs⟩ hv.writable.1 hv.writable.2

theorem Grammar.Arguments.writable {greedy : Bool} {u : List Char} {ts : List TypeExpr} :
    Arguments greedy u ts → ts ≠ [] ∧ ∀ t ∈ ts, Writable t
  | .last ha _ => ⟨List.cons_ne_nil _ _, List.forall_mem_cons.2 ⟨ha.writable, by simp⟩⟩
  | .cons ha _ hv => ⟨List.cons_ne_nil _ _, List.forall_mem_cons.2 ⟨ha.writable, hv.writable.2⟩⟩

end

/-- The text is a suffixed type of its own. -/
def Prints (t : TypeExpr) : Prop := ∃ full, Suffixed true (print t) t full

theorem Grammar.Suffixed.alternation {greedy full : Bool} {u : List Char} {t : TypeExpr}
    (h : Suffixed greedy u t full) : Alternation greedy u t := by
  simpa [ofAlternatives] using Alternation.mk h .nil

theorem Prints.parentheses {t : TypeExpr} (h : Prints t) :
    Marked true ('(' :: (print t ++ [')'])) t true := by
  obtain ⟨full, h⟩ := h
  exact .atom .nil (.parentheses h.alternation .nil)

theorem alternatives_printAll {ts : List TypeExpr} (hne : ts ≠ []) (h : ∀ t ∈ ts, Prints t) :
    Alternatives true ('|' :: printAll '|' ts) ts := by
  induction ts with
  | nil => contradiction
  | cons t ts ih =>
    obtain ⟨full, ht⟩ := h t List.mem_cons_self
    cases ts with
    | nil =>
      rw [printAll, ← List.append_nil (print t)]
      exact .cons .nil ht .nil
    | cons t' ts =>
      rw [printAll]
      · exact .cons .nil ht (ih (List.cons_ne_nil _ _) fun t h' => h t (List.mem_cons_of_mem _ h'))
      · simp

theorem arguments_printAll {ts : List TypeExpr} (hne : ts ≠ []) (h : ∀ t ∈ ts, Prints t) :
    Arguments true (printAll ',' ts ++ ['>']) ts := by
  induction ts with
  | nil => contradiction
  | cons t ts ih =>
    obtain ⟨full, ht⟩ := h t List.mem_cons_self
    cases ts with
    | nil =>
      rw [printAll]
      exact .last ht.alternation .nil
    | cons t' ts =>
      rw [printAll, List.append_assoc]
      · exact .cons ht.alternation .nil
          (ih (List.cons_ne_nil _ _) fun t h' => h t (List.mem_cons_of_mem _ h'))
      · simp

theorem Writable.prints {t : TypeExpr} (h : Writable t) : Prints t := by
  induction h with
  | @name n hn =>
    obtain ⟨c, tail, hcs, hc, ht⟩ := hn
    have hm : Marked true (c :: tail) (.name (String.ofList (c :: tail))) true :=
      .atom .nil (.name hc ht)
    rw [← hcs, String.ofList_toList] at hm
    exact ⟨false, hm.suffixed⟩
  | optional _ ih =>
    refine ⟨true, ?_⟩
    rw [print]
    have hs := Suffixed.optional ih.parentheses .nil .nil fun _ => rfl
    simpa using hs
  | @union ts hl hs ih =>
    obtain ⟨t, t', ts, rfl⟩ : ∃ t t' ts', ts = t :: t' :: ts' := by
      match ts, hl with
      | t :: t' :: ts, _ => exact ⟨t, t', ts, rfl⟩
    obtain ⟨full, ht⟩ := ih t List.mem_cons_self
    have ha : Alternation true (printAll '|' (t :: t' :: ts)) (.union (t :: t' :: ts)) := by
      rw [printAll]
      · exact .mk ht (alternatives_printAll (List.cons_ne_nil _ _)
          fun t h => ih t (List.mem_cons_of_mem _ h))
      · simp
    exact ⟨false, (Marked.atom .nil (.parentheses ha .nil)).suffixed⟩
  | @apply n ts hn hne _ ih =>
    obtain ⟨c, tail, hcs, hc, ht⟩ := hn
    have hm : Marked true _ _ true :=
      .atom .nil (.apply hc ht .nil .angle (arguments_printAll hne ih))
    rw [← hcs, String.ofList_toList] at hm
    refine ⟨false, ?_⟩
    rw [print, print, hcs]
    exact hm.suffixed
  | nullable _ ih => exact ⟨false, (Marked.nullable .nil ih.parentheses.suffixed).suffixed⟩
  | nonNullable _ ih => exact ⟨false, (Marked.nonNullable .nil ih.parentheses.suffixed).suffixed⟩
  | any => exact ⟨false, (Marked.atom .nil .any).suffixed⟩

theorem Writable.parseChars_print {t : TypeExpr} (h : Writable t) : parseChars (print t) = .ok t := by
  obtain ⟨full, hp⟩ := h.prints
  apply parseChars_eq_ok_iff.2
  simpa using Whole.mk hp.alternation .nil

theorem writable_of_parseChars {s : List Char} {t : TypeExpr} (h : parseChars s = .ok t) :
    Writable t := by
  obtain ⟨ha, _⟩ := parseChars_eq_ok_iff.1 h
  exact ha.writable

theorem exists_parse_eq_ok_iff_writable {t : TypeExpr} :
    (∃ source, parse source = .ok t) ↔ Writable t := by
  constructor
  · rintro ⟨source, h⟩
    exact writable_of_parseChars h
  · intro h
    refine ⟨String.ofList (print t), ?_⟩
    rw [parse, String.toList_ofList, h.parseChars_print]

def isTypeChar (c : Char) : Bool := isNamePart c || punctuation.contains c

theorem isTypeChar_of_isNamePart {c : Char} (h : isNamePart c) : isTypeChar c := by
  rw [isTypeChar, h, Bool.true_or]

theorem Grammar.NameTail.all_isTypeChar {cs : List Char} (h : NameTail cs) :
    cs.all isTypeChar := by
  induction h with
  | nil => rfl
  | part hc _ ih => rw [List.all_cons, isTypeChar_of_isNamePart hc, ih, Bool.and_self]
  | point _ _ ih =>
    have hp : isTypeChar '.' := by decide +kernel
    rw [List.all_cons, hp, ih, Bool.and_self]

theorem IsName.all_isTypeChar {cs : List Char} (h : IsName cs) : cs.all isTypeChar := by
  obtain ⟨c, tail, rfl, hc, ht⟩ := h
  have hc := isTypeChar_of_isNamePart (isNamePart_of_isNameStart hc)
  rw [List.all_cons, hc, ht.all_isTypeChar, Bool.and_self]

theorem all_isTypeChar_printAll {sign : Char} (hs : isTypeChar sign) {ts : List TypeExpr}
    (h : ∀ t ∈ ts, (print t).all isTypeChar) : (printAll sign ts).all isTypeChar := by
  induction ts with
  | nil => rfl
  | cons t ts ih =>
    obtain ⟨ht, hts⟩ := List.forall_mem_cons.1 h
    cases ts with
    | nil => rwa [printAll]
    | cons t' ts =>
      rw [printAll]
      · rw [List.all_append, List.all_cons, ht, hs, ih hts]
        rfl
      · simp

theorem Writable.all_isTypeChar_print {t : TypeExpr} (h : Writable t) :
    (print t).all isTypeChar := by
  have hsigns : ['(', ')', '<', '>', '=', '|', ',', '?', '!', '*'].all isTypeChar := by
    decide +kernel
  simp only [List.all_cons, List.all_nil, Bool.and_eq_true, and_true] at hsigns
  obtain ⟨hopen, hclose, hless, hgreater, heq, hbar, hcomma, hquery, hbang, hstar⟩ := hsigns
  induction h with
  | name hn =>
    rw [print]
    exact hn.all_isTypeChar
  | optional _ ih =>
    simp only [print, List.all_cons, List.all_append, hopen, hclose, heq, ih]
    rfl
  | union _ _ ih =>
    have hall := all_isTypeChar_printAll hbar ih
    simp only [print, List.all_cons, List.all_append, hopen, hclose, hall]
    rfl
  | apply hn _ _ ih =>
    have hall := all_isTypeChar_printAll hcomma ih
    simp only [print, List.all_cons, List.all_append, hn.all_isTypeChar, hless, hgreater, hall]
    rfl
  | nullable _ ih =>
    simp only [print, List.all_cons, List.all_append, hquery, hopen, hclose, ih]
    rfl
  | nonNullable _ ih =>
    simp only [print, List.all_cons, List.all_append, hbang, hopen, hclose, ih]
    rfl
  | any => rwa [print, List.all_cons, List.all_nil, Bool.and_true]

theorem Writable.not_mem_print {t : TypeExpr} (h : Writable t) {c : Char}
    (hc : isTypeChar c = false) : c ∉ print t := by
  intro hm
  have ht := List.all_eq_true.1 h.all_isTypeChar_print c hm
  rw [hc] at ht
  contradiction

/-- A text of blanks and of characters that a written type can hold. -/
def IsSource (s : List Char) : Prop := ∀ c ∈ s, isBlank c ∨ isTypeChar c

theorem IsSource.nil : IsSource [] := by simp [IsSource]

theorem IsSource.append {s s' : List Char} (h : IsSource s) (h' : IsSource s') :
    IsSource (s ++ s') :=
  List.forall_mem_append.2 ⟨h, h'⟩

theorem IsSource.sign {c : Char} {s : List Char} (h : IsSource s) (hc : c ∈ punctuation) :
    IsSource (c :: s) := by
  refine List.forall_mem_cons.2 ⟨.inr ?_, h⟩
  rw [isTypeChar, List.contains_iff_mem.2 hc, Bool.or_true]

theorem isSource_of_blanks {w : List Char} (h : Blanks w) : IsSource w := fun c hc => .inl (h c hc)

theorem IsName.isSource {cs : List Char} (h : IsName cs) : IsSource cs :=
  fun c hc => .inr (List.all_eq_true.1 h.all_isTypeChar c hc)

theorem Grammar.Arrays.isSource {t t' : TypeExpr} {v : List Char} (h : Arrays t v t') :
    IsSource v := by
  induction h with
  | nil => exact .nil
  | cons hw _ ih => exact (isSource_of_blanks hw).append ((ih.sign (by decide)).sign (by decide))

theorem Grammar.Opening.isSource {o : List Char} (h : Opening o) : IsSource o := by
  cases h with
  | angle => exact .sign .nil (by decide)
  | point => exact (IsSource.sign .nil (by decide)).sign (by decide)

mutual

theorem Grammar.Alternation.isSource {greedy : Bool} {u : List Char} {t : TypeExpr} :
    Alternation greedy u t → IsSource u
  | .mk hs ha => hs.isSource.append ha.isSource

theorem Grammar.Alternatives.isSource {greedy : Bool} {u : List Char} {ts : List TypeExpr} :
    Alternatives greedy u ts → IsSource u
  | .nil => .nil
  | .cons hw hs ha =>
    (isSource_of_blanks hw).append ((hs.isSource.append ha.isSource).sign (by decide))

theorem Grammar.Suffixed.isSource {greedy full : Bool} {u : List Char} {t : TypeExpr} :
    Suffixed greedy u t full → IsSource u
  | .bare hm ha _ => hm.isSource.append ha.isSource
  | .optional hm ha hw _ =>
    hm.isSource.append (ha.isSource.append ((isSource_of_blanks hw).append (.sign .nil (by decide))))

theorem Grammar.Marked.isSource {greedy full : Bool} {u : List Char} {t : TypeExpr} :
    Marked greedy u t full → IsSource u
  | .nullable hw hs => (isSource_of_blanks hw).append (hs.isSource.sign (by decide))
  | .nonNullable hw hs => (isSource_of_blanks hw).append (hs.isSource.sign (by decide))
  | .atom hw ha => (isSource_of_blanks hw).append ha.isSource

theorem Grammar.Atom.isSource {greedy : Bool} {u : List Char} {t : TypeExpr} :
    Atom greedy u t → IsSource u
  | .parentheses ha hw =>
    .sign (ha.isSource.append ((isSource_of_blanks hw).append (.sign .nil (by decide)))) (by decide)
  | .any => .sign .nil (by decide)
  | .name hc hcs => IsName.isSource ⟨_, _, rfl, hc, hcs⟩
  | .apply hc hcs hw ho hv =>
    (IsName.isSource ⟨_, _, rfl, hc, hcs⟩).append
      ((isSource_of_blanks hw).append (ho.isSource.append hv.isSource))

theorem Grammar.Arguments.isSource {greedy : Bool} {u : List Char} {ts : List TypeExpr} :
    Arguments greedy u ts → IsSource u
  | .last ha hw => ha.isSource.append ((isSource_of_blanks hw).append (.sign .nil (by decide)))
  | .cons ha hw hv => ha.isSource.append ((isSource_of_blanks hw).append (hv.isSource.sign (by decide)))

end

theorem isSource_of_parseChars {s : List Char} {t : TypeExpr} (h : parseChars s = .ok t) :
    IsSource s := by
  obtain ⟨ha, hw⟩ := parseChars_eq_ok_iff.1 h
  exact ha.isSource.append (isSource_of_blanks hw)

theorem ne_brace_of_parseChars {s : List Char} {t : TypeExpr} (h : parseChars s = .ok t) :
    ∀ c ∈ s, c ≠ '{' ∧ c ≠ '}' := by
  have hopen : ¬(isBlank '{' ∨ isTypeChar '{') := by decide +kernel
  have hclose : ¬(isBlank '}' ∨ isTypeChar '}') := by decide +kernel
  intro c hc
  have hsource := isSource_of_parseChars h c hc
  constructor
  · rintro rfl
    exact hopen hsource
  · rintro rfl
    exact hclose hsource

end AnnotatedApi.TypeExpr
