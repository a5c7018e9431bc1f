import AnnotatedApi.Proofs.Annotation.Extraction
import AnnotatedApi.Proofs.Text.Lines
import AnnotatedApi.Proofs.TypeExpr.Printing

/-! Writing a tag. Main statement: a tag in normal form is read back from its text, whatever blanks
follow it. -/
namespace AnnotatedApi

open Text

structure IsWord (s : List Char) : Prop where
  not_isBlank : ∀ c ∈ s, isBlank c = false
  staysOpen : StaysOpen s

instance (s : List Char) : Decidable (IsWord s) :=
  decidable_of_iff (s.all (!isBlank ·) ∧ StaysOpen s)
    ⟨fun ⟨hb, ho⟩ => ⟨by simpa using hb, ho⟩, fun ⟨hb, ho⟩ => ⟨by simpa using hb, ho⟩⟩

structure IsProse (s : List Char) : Prop where
  trimmed : Trimmed s
  not_mem_return : '\r' ∉ s
  staysOpen : StaysOpen s

instance (s : List Char) : Decidable (IsProse s) :=
  decidable_of_iff (Trimmed s ∧ '\r' ∉ s ∧ StaysOpen s)
    ⟨fun ⟨ht, hr, ho⟩ => ⟨ht, hr, ho⟩, fun ⟨ht, hr, ho⟩ => ⟨ht, hr, ho⟩⟩

namespace Tag

def typeText (t : Tag) : List Char := t.type.elim [] fun e => ' ' :: '{' :: (e.print ++ ['}'])

def nameText (t : Tag) : List Char := t.name.elim [] fun n => ' ' :: n.toList

def descriptionText (t : Tag) : List Char :=
  if t.description = "" then [] else ' ' :: '-' :: ' ' :: t.description.toList

def text (t : Tag) : List Char :=
  '@' :: (t.title.toList ++ (t.typeText ++ (t.nameText ++ t.descriptionText)))

/-- A well-formed tag with nothing in it that its text cannot express. A type stands only where the
title admits one and can be read from some text, and a name stands exactly where the title asks for
one. No line of the description but the first opens a tag. -/
structure IsNormal (t : Tag) : Prop where
  errors : t.errors = []
  title : IsWord t.title.toList
  type : ∀ e ∈ t.type, t.title ∈ typedTitles ∧ ∃ source, TypeExpr.parse source = .ok e
  named : t.name.isSome ↔ t.title ∈ namedTitles
  name : ∀ n ∈ t.name, IsWord n.toList
  name_ne : ∀ n ∈ t.name, n ≠ ""
  name_head : ∀ n ∈ t.name, n.toList.head? ≠ some '[' ∧ n.toList.head? ≠ some '{'
  description : IsProse t.description.toList
  description_lines : ∀ l ∈ (lines t.description.toList).tail, opensTag l = false

theorem toList_ne_nil {s : String} (h : s ≠ "") : s.toList ≠ [] :=
  fun hnil => h (String.toList_eq_nil_iff.1 hnil)

theorem name?_toList {n : String} (h : n ≠ "") : name? n.toList = some n := by
  rw [name?, if_neg (by simpa using toList_ne_nil h), String.ofList_toList]

def StartsBlank (s : List Char) : Prop := ∀ c, s.head? = some c → isBlank c

theorem takeWhile_of_startsBlank {s : List Char} (h : StartsBlank s) :
    s.takeWhile (!isBlank ·) = [] := by
  cases s with
  | nil => rfl
  | cons c s => simp [h c rfl]

theorem takeWhile_word {word s : List Char} (h : IsWord word) (hs : StartsBlank s) :
    (word ++ s).takeWhile (!isBlank ·) = word := by
  rw [List.takeWhile_append_of_pos, takeWhile_of_startsBlank hs, List.append_nil]
  intro c hc
  rw [h.not_isBlank c hc]
  rfl

theorem dropWhile_word {word s : List Char} (h : IsWord word) (hs : StartsBlank s) :
    (word ++ s).dropWhile (!isBlank ·) = s := by
  have hsplit := List.takeWhile_append_dropWhile (p := (!isBlank ·)) (l := word ++ s)
  rw [takeWhile_word h hs] at hsplit
  exact List.append_cancel_left hsplit

theorem braced?_append {inner : List Char} (h : ∀ c ∈ inner, c ≠ '{' ∧ c ≠ '}') (rest : List Char) :
    braced? 0 (inner ++ '}' :: rest) = some (inner, rest) := by
  induction inner with
  | nil => rfl
  | cons c inner ih =>
    obtain ⟨hc, hcs⟩ := List.forall_mem_cons.1 h
    rw [List.cons_append, braced?, if_neg hc.1, if_neg hc.2, ih hcs]
    rfl

theorem typePart_braced {title : String} (ht : title ∈ typedTitles) {source : List Char} {e : TypeExpr}
    (he : TypeExpr.parseChars source = .ok e) (rest : List Char) :
    typePart title ('{' :: (source ++ '}' :: rest)) = { type := some e, rest := trimStart rest } := by
  simp only [typePart, ht, if_true, braced?_append (TypeExpr.ne_brace_of_parseChars he), he]

theorem typePart_of_head?_ne {title : String} {s : List Char} (h : s.head? ≠ some '{') :
    typePart title s = { rest := s } := by
  unfold typePart
  split
  next => simp at h
  next => rfl

theorem namePart_of_head?_ne {s : List Char} (h : s.head? ≠ some '[') :
    namePart s = ⟨name? (s.takeWhile (!isBlank ·)), false, s.dropWhile (!isBlank ·)⟩ := by
  unfold namePart
  split
  next => simp at h
  next => rfl

theorem startsBlank_space (s : List Char) : StartsBlank (' ' :: s) := by
  intro c hc
  rw [← Option.some.inj hc]
  decide

private theorem dropHyphen_space (s : List Char) : dropHyphen ('-' :: ' ' :: s) = trimStart s := by
  have hb : isBlank ' ' := by decide
  rw [dropHyphen, if_pos (by rw [List.head?_cons, Option.any_some, hb]), ← List.singleton_append,
    blanks_space.trimStart_append]

theorem dropHyphen_trim {s w : List Char} (hne : s ≠ []) (hs : Trimmed s) (hw : Blanks w) :
    dropHyphen (trim (' ' :: '-' :: ' ' :: (s ++ w))) = s := by
  have ht : Trimmed ('-' :: ' ' :: s) := by
    refine ⟨fun c hc => by cases hc; decide, ?_⟩
    rw [List.getLast?_cons_of_ne_nil (List.cons_ne_nil _ _), List.getLast?_cons_of_ne_nil hne]
    exact hs.2
  calc dropHyphen (trim ([' '] ++ (('-' :: ' ' :: s) ++ w)))
      = dropHyphen ('-' :: ' ' :: s) := by rw [ht.trim_append blanks_space hw]
    _ = s := by rw [dropHyphen_space, trimStart_eq_self hs.1]

theorem isPrefixOf?_at (s : List Char) : ['@'].isPrefixOf? (trimStart ('@' :: s)) = some s := by
  rw [trimStart_cons_of_not_isBlank (by decide)]
  rfl

variable {t : Tag} {w : List Char}

theorem startsBlank_descriptionText (hw : Blanks w) : StartsBlank (t.descriptionText ++ w) := by
  unfold descriptionText
  split
  · intro c hc
    exact hw c (List.mem_of_head? hc)
  · exact startsBlank_space _

theorem startsBlank_nameText (hw : Blanks w) :
    StartsBlank (t.nameText ++ (t.descriptionText ++ w)) := by
  unfold nameText
  cases t.name with
  | none => exact startsBlank_descriptionText hw
  | some n => exact startsBlank_space _

theorem startsBlank_typeText (hw : Blanks w) :
    StartsBlank (t.typeText ++ (t.nameText ++ (t.descriptionText ++ w))) := by
  unfold typeText
  cases t.type with
  | none => exact startsBlank_nameText hw
  | some e => exact startsBlank_space _

namespace IsNormal

variable (h : t.IsNormal)

include h

theorem name_rest_eq {n : String} (hn : t.name = some n) (s : List Char) :
    trimStart (t.nameText ++ s) = n.toList ++ s := by
  unfold nameText
  rw [hn, Option.elim_some, ← List.singleton_append, List.append_assoc,
    blanks_space.trimStart_append, trimStart_eq_self]
  intro c hc
  have hne := toList_ne_nil (h.name_ne n hn)
  rw [List.head?_append_of_ne_nil _ hne] at hc
  exact (h.name n hn).not_isBlank c (List.mem_of_head? hc)

private theorem type_rest_eq {e : TypeExpr} (he : t.type = some e) (s : List Char) :
    typePart t.title (trimStart (t.typeText ++ s)) = { type := some e, rest := trimStart s } := by
  obtain ⟨htitle, hp⟩ := h.type e he
  have hwr := TypeExpr.exists_parse_eq_ok_iff_writable.1 hp
  have hs : trimStart (t.typeText ++ s) = '{' :: (e.print ++ '}' :: s) := by
    unfold typeText
    rw [he, Option.elim_some, List.cons_append, List.cons_append, List.append_assoc]
    exact blanks_space.trimStart_append_cons (by decide) _
  rw [hs, typePart_braced htitle hwr.parseChars_print]

variable (hw : Blanks w)

include hw

theorem description_eq : dropHyphen (trim (t.descriptionText ++ w)) = t.description.toList := by
  unfold descriptionText
  split
  next hd =>
    rw [hd, List.nil_append, hw.trim_eq_nil]
    rfl
  next hd =>
    exact dropHyphen_trim (toList_ne_nil hd) h.description.trimmed hw

private theorem head?_rest_ne :
    (trimStart (t.nameText ++ (t.descriptionText ++ w))).head? ≠ some '{' := by
  cases hn : t.name with
  | some n =>
    have hne := toList_ne_nil (h.name_ne n hn)
    rw [h.name_rest_eq hn, List.head?_append_of_ne_nil _ hne]
    exact (h.name_head n hn).2
  | none =>
    unfold nameText descriptionText
    rw [hn, Option.elim_none, List.nil_append]
    split
    · rw [List.nil_append, hw.trimStart_eq_nil]
      exact Option.some_ne_none _ |>.symm
    · have hs : trimStart (' ' :: '-' :: ' ' :: t.description.toList ++ w) =
          '-' :: ' ' :: (t.description.toList ++ w) :=
        blanks_space.trimStart_append_cons (by decide) _
      rw [hs, List.head?_cons]
      decide

theorem typePart_eq :
    typePart t.title (trimStart (t.typeText ++ (t.nameText ++ (t.descriptionText ++ w)))) =
      { type := t.type, rest := trimStart (t.nameText ++ (t.descriptionText ++ w)) } := by
  cases he : t.type with
  | none =>
    unfold typeText
    rw [he]
    exact typePart_of_head?_ne (h.head?_rest_ne hw)
  | some e => exact h.type_rest_eq he _

theorem parse_text : parse (t.text ++ w) = t := by
  have hbody : (['@'].isPrefixOf? (trimStart (t.text ++ w))).getD (t.text ++ w) =
      t.title.toList ++ (t.typeText ++ (t.nameText ++ (t.descriptionText ++ w))) := by
    unfold text
    rw [List.cons_append, isPrefixOf?_at, Option.getD_some]
    simp only [List.append_assoc]
  have hstart := startsBlank_typeText (t := t) hw
  unfold parse
  rw [hbody]
  simp only [takeWhile_word h.title hstart, dropWhile_word h.title hstart, String.ofList_toList,
    h.typePart_eq hw]
  cases hn : t.name with
  | some n =>
    have htitle : t.title ∈ namedTitles := h.named.1 (by rw [hn]; rfl)
    have hne := toList_ne_nil (h.name_ne n hn)
    have hhead : (n.toList ++ (t.descriptionText ++ w)).head? ≠ some '[' := by
      rw [List.head?_append_of_ne_nil _ hne]
      exact (h.name_head n hn).1
    have hstart := startsBlank_descriptionText (t := t) hw
    rw [if_pos htitle, h.name_rest_eq hn, namePart_of_head?_ne hhead,
      takeWhile_word (h.name n hn) hstart, dropWhile_word (h.name n hn) hstart, h.description_eq hw,
      String.ofList_toList, name?_toList (h.name_ne n hn)]
    obtain ⟨title, description, name, type, errors⟩ := t
    cases hn
    cases h.errors
    rfl
  | none =>
    have htitle : t.title ∉ namedTitles := fun ht => by simpa [hn] using h.named.2 ht
    have hrest : trim (trimStart (t.nameText ++ (t.descriptionText ++ w))) =
        trim (t.descriptionText ++ w) := by
      unfold nameText
      rw [hn, Option.elim_none, List.nil_append, trim_trimStart]
    rw [if_neg htitle, hrest, h.description_eq hw, String.ofList_toList]
    obtain ⟨title, description, name, type, errors⟩ := t
    cases hn
    cases h.errors
    rfl

end IsNormal

end Tag

end AnnotatedApi
