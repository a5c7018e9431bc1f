import AnnotatedApi.Proofs.Annotation.TagText
import Mathlib.Data.List.Forall2

/-! What every tag that is read is like, however its text is spoilt. Main statement: each part of a tag is
clean, and a tag whose title asks for a name has one or says that it is missing. -/
namespace AnnotatedApi

open Text

theorem TagFault.message_eq_unnamed_iff {f : TagFault} :
    f.message = unnamed.message ↔ f = .unnamed := by
  constructor
  · intro h
    cases f with
    | badType source error =>
      -- The two messages differ in their first letter.
      have hhead : (badType source error).message.toList.head? = some 'I' := by
        unfold message
        rw [String.toList_append, String.toList_append, String.toList_append]
        rfl
      rw [h] at hhead
      exact absurd hhead (by decide)
    | unbalanced =>
      revert h
      decide
    | unnamed => rfl
  · rintro rfl
    rfl

theorem Text.trimmed_dropHyphen {s : List Char} (h : Trimmed s) : Trimmed (Tag.dropHyphen s) := by
  unfold Tag.dropHyphen
  split
  next rest =>
    split
    next =>
      refine ⟨not_isBlank_head?_trimStart rest, fun c hc => h.2 c ?_⟩
      obtain ⟨w, hw⟩ := trimStart_suffix rest
      rw [← hw, ← List.cons_append, List.getLast?_append, hc]
      rfl
    next => exact h
  next => exact h

namespace Tag

private theorem ne_empty_of_name? {cs : List Char} {n : String} (h : name? cs = some n) : n ≠ "" := by
  unfold name? at h
  split at h
  next => cases h
  next hne =>
    cases h
    simpa using hne

theorem typePart_type {title : String} {cs : List Char} (h : (typePart title cs).type.isSome) :
    title ∈ typedTitles := by
  by_contra ht
  have hnone : (typePart title cs).type = none := by
    unfold typePart
    split
    next => rw [if_neg ht]
    next => rfl
  rw [hnone] at h
  cases h

private theorem unnamed_not_mem_typePart (title : String) (cs : List Char) :
    .unnamed ∉ (typePart title cs).faults := by
  unfold typePart
  split
  next inside =>
    split
    next =>
      split
      next => split <;> simp
      next => simp
    next => simp
  next => simp

def body (raw : List Char) : List Char := (['@'].isPrefixOf? (trimStart raw)).getD raw

def titleText (raw : List Char) : String := String.ofList ((body raw).takeWhile (!isBlank ·))

def typeBehind (raw : List Char) : TypePart :=
  typePart (titleText raw) (trimStart ((body raw).dropWhile (!isBlank ·)))

/-- Where a name would stand: behind the title and the type. -/
def namePlace (raw : List Char) : List Char := (typeBehind raw).rest

theorem parse_of_named {raw : List Char} (h : titleText raw ∈ namedTitles) : parse raw = {
    title := titleText raw
    description := String.ofList (dropHyphen (trim (namePart (namePlace raw)).rest))
    name := (namePart (namePlace raw)).name
    type := if (namePart (namePlace raw)).bracketed then (typeBehind raw).type.map (·.toOptional)
      else (typeBehind raw).type
    errors := ((typeBehind raw).faults ++
      if (namePart (namePlace raw)).name.isNone then [TagFault.unnamed] else []).map (·.message) } :=
  if_pos h

theorem parse_of_not_named {raw : List Char} (h : titleText raw ∉ namedTitles) : parse raw = {
    title := titleText raw
    description := String.ofList (dropHyphen (trim (namePlace raw)))
    type := (typeBehind raw).type
    errors := (typeBehind raw).faults.map (·.message) } :=
  if_neg h

/-- How a tag is cut from its text. A name without brackets holds no blank. A tag whose title asks for a
name has one that is not empty, or the error that says it has none, and never both. -/
structure Cut (raw : List Char) (t : Tag) : Prop where
  title : ∀ c ∈ t.title.toList, isBlank c = false
  name : (namePlace raw).head? ≠ some '[' → ∀ n ∈ t.name, ∀ c ∈ n.toList, isBlank c = false
  description : Trimmed t.description.toList
  type : t.type.isSome → t.title ∈ typedTitles
  named : t.title ∈ namedTitles →
    ((∃ n ∈ t.name, n ≠ "") ↔ "Missing or invalid tag name" ∉ t.errors)
  nameless : t.title ∉ namedTitles → t.name = none

theorem not_isBlank_of_mem_takeWhile {s : List Char} :
    ∀ c ∈ s.takeWhile (!isBlank ·), isBlank c = false := by
  intro c hc
  simpa using List.mem_takeWhile_imp hc

theorem not_isBlank_of_mem_titleText (raw : List Char) :
    ∀ c ∈ (titleText raw).toList, isBlank c = false := by
  rw [titleText, String.toList_ofList]
  exact not_isBlank_of_mem_takeWhile

theorem unnamed_mem_errors_iff {raw : List Char} (h : titleText raw ∈ namedTitles) :
    TagFault.unnamed.message ∈ (parse raw).errors ↔ (parse raw).name = none := by
  rw [parse_of_named h]
  have hfaults : .unnamed ∉ (typeBehind raw).faults := unnamed_not_mem_typePart _ _
  simp only [List.mem_map, TagFault.message_eq_unnamed_iff, exists_eq_right, List.mem_append]
  cases (namePart (namePlace raw)).name with
  | none => simp
  | some n => simpa using hfaults

theorem ne_empty_of_mem_name {cs : List Char} {n : String} (h : (namePart cs).name = some n) :
    n ≠ "" := by
  unfold namePart at h
  split at h
  next inside =>
    cases hcut : cut? [']'] inside with
    | none => simp [hcut] at h
    | some p =>
      simp only [hcut] at h
      exact ne_empty_of_name? h
  next => exact ne_empty_of_name? h

theorem cut_parse (raw : List Char) : Cut raw (parse raw) := by
  by_cases h : titleText raw ∈ namedTitles
  · have herrors := unnamed_mem_errors_iff h
    rw [parse_of_named h] at herrors ⊢
    refine ⟨not_isBlank_of_mem_titleText raw, ?_, ?_, ?_, fun _ => ?_, fun hn => absurd h hn⟩
    · intro hhead n hn
      rw [namePart_of_head?_ne hhead] at hn
      unfold name? at hn
      split at hn
      next => cases hn
      next =>
        cases hn
        rw [String.toList_ofList]
        exact not_isBlank_of_mem_takeWhile
    · rw [String.toList_ofList]
      exact trimmed_dropHyphen (trimmed_trim _)
    · intro ht
      have hsome : (typeBehind raw).type.isSome := by
        dsimp only at ht
        split at ht
        next => simpa using ht
        next => exact ht
      exact typePart_type hsome
    · rw [show "Missing or invalid tag name" = TagFault.unnamed.message from rfl, herrors]
      cases hname : (namePart (namePlace raw)).name with
      | none => simp
      | some n => simpa using ne_empty_of_mem_name hname
  · rw [parse_of_not_named h]
    refine ⟨not_isBlank_of_mem_titleText raw, ?_, ?_, typePart_type, fun hn => absurd hn h, fun _ => rfl⟩
    · rintro - n ⟨⟩
    · rw [String.toList_ofList]
      exact trimmed_dropHyphen (trimmed_trim _)

end Tag

def Block.tagTexts (body : List Char) : List (List Char) :=
  (sections ((lines body).map unwrapLine)).2.map (joinWith '\n')

theorem Block.forall₂_cut (body : List Char) :
    List.Forall₂ Tag.Cut (tagTexts body) (parse body).tags := by
  have htags : (parse body).tags = (tagTexts body).map Tag.parse := by
    simp [parse, tagTexts, Function.comp_def]
  rw [htags, List.forall₂_map_right_iff]
  exact List.forall₂_same.2 fun raw _ => Tag.cut_parse raw

theorem Annotations.forall₂_cut (text : String) :
    List.Forall₂ (fun body b => List.Forall₂ Tag.Cut (Block.tagTexts body) b.tags)
      (Comments.extract text.toList).bodies (parse text).blocks := by
  unfold parse
  rw [List.forall₂_map_right_iff]
  exact List.forall₂_same.2 fun body _ => Block.forall₂_cut body

end AnnotatedApi
