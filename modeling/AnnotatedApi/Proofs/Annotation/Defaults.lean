import AnnotatedApi.Proofs.Annotation.TagText
import AnnotatedApi.Proofs.Text.Parts
import Mathlib.Data.List.Infix

/-! Tags with a default in brackets. Main statement: such a tag keeps its name, its type becomes optional
and nothing is wrong with it, but its description is kept only if the default holds no closing bracket.
Of a default with brackets of its own, all that stands behind its first closing one is read as part of
the description, and so is the bracket that closes the name. -/
namespace AnnotatedApi

open Text

namespace Text

/-- Each `opening` has its `closing` behind it. -/
structure Balanced (opening closing : Char) (s : List Char) : Prop where
  total : s.count opening = s.count closing
  within : ∀ p, p <+: s → p.count closing ≤ p.count opening

instance (opening closing : Char) (s : List Char) : Decidable (Balanced opening closing s) :=
  decidable_of_iff (s.count opening = s.count closing ∧
      ∀ p ∈ s.inits, p.count closing ≤ p.count opening)
    ⟨fun ⟨ht, hw⟩ => ⟨ht, fun p hp => hw p ((List.mem_inits p s).2 hp)⟩,
      fun ⟨ht, hw⟩ => ⟨ht, fun p hp => hw p ((List.mem_inits p s).1 hp)⟩⟩

theorem Balanced.mem_iff {opening closing : Char} {s : List Char} (h : Balanced opening closing s) :
    opening ∈ s ↔ closing ∈ s := by
  rw [← List.count_pos_iff, h.total, List.count_pos_iff]

private theorem cut?_singleton {c : Char} {s : List Char} (h : c ∈ s) :
    cut? [c] s = some (upTo c s, behind c s) := by
  have hfirst : ¬[c] <:+: upTo c s := by
    rw [List.singleton_infix_iff]
    exact not_mem_upTo c s
  have hcut := cut?_append List.not_mem_nil hfirst (behind c s)
  rwa [List.singleton_append, ← eq_upTo_append_behind h] at hcut

end Text

namespace Tag

theorem namePart_bracketed {inside : List Char} (h : ']' ∈ inside) : namePart ('[' :: inside) =
    ⟨name? (trim (upTo '=' (upTo ']' inside))), true, behind ']' inside⟩ := by
  simp only [namePart, cut?_singleton h]
  rfl

private theorem dropHyphen_of_head?_ne {s : List Char} (h : s.head? ≠ some '-') : dropHyphen s = s := by
  unfold dropHyphen
  split
  next => simp at h
  next => rfl

/-- Neither the hyphen nor the blanks behind it reach over another character. -/
theorem dropHyphen_append_cons {c : Char} (hc : isBlank c = false) (hne : c ≠ '-')
    (s rest : List Char) : dropHyphen (s ++ c :: rest) = dropHyphen s ++ c :: rest := by
  cases s with
  | nil => exact dropHyphen_of_head?_ne (by simpa using hne)
  | cons d s =>
    by_cases hd : d = '-'
    · subst hd
      -- A hyphen with nothing behind it stays, and so it does right before `c`, which is no blank.
      have hhead : (s ++ c :: rest).head?.any isBlank = s.head?.any isBlank := by
        cases s with
        | nil => exact hc
        | cons e s => rfl
      simp only [List.cons_append, dropHyphen, hhead, trimStart_append_cons hc]
      split <;> rfl
    · rw [dropHyphen_of_head?_ne (by simpa using hd), dropHyphen_of_head?_ne (by simpa using hd)]

/-- A tag with a type, a name in brackets with a default, and a description. -/
structure Defaulted where
  title : String
  source : List Char
  type : TypeExpr
  name : String
  preset : List Char
  description : String
  named : title ∈ namedTitles
  typed : TypeExpr.parseChars source = .ok type
  name_ne : name ≠ ""
  name_trimmed : Trimmed name.toList
  name_closed : ']' ∉ name.toList ∧ '=' ∉ name.toList
  description_ne : description ≠ ""
  description_trimmed : Trimmed description.toList

private theorem mem_typedTitles_of_mem_namedTitles {title : String} (h : title ∈ namedTitles) :
    title ∈ typedTitles := by
  have hsub : ∀ t ∈ namedTitles, t ∈ typedTitles := by decide
  exact hsub title h

private theorem isWord_of_mem_namedTitles {title : String} (h : title ∈ namedTitles) :
    IsWord title.toList := by
  have hword : ∀ t ∈ namedTitles, IsWord t.toList := by decide +kernel
  exact hword title h

namespace Defaulted

variable (d : Defaulted)

def ending : List Char := ']' :: ' ' :: '-' :: ' ' :: d.description.toList

def inside : List Char := d.name.toList ++ '=' :: (d.preset ++ d.ending)

def text : List Char :=
  '@' :: (d.title.toList ++ ' ' :: '{' :: (d.source ++ '}' :: ' ' :: '[' :: d.inside))

private theorem mem_inside : ']' ∈ d.inside := by
  simp [inside, ending]

theorem namePart_inside : namePart ('[' :: d.inside) =
    ⟨some d.name, true, behind ']' (d.preset ++ d.ending)⟩ := by
  have hsign : '=' ≠ ']' := by decide
  obtain ⟨hclosing, hequals⟩ := d.name_closed
  rw [namePart_bracketed d.mem_inside]
  unfold inside
  rw [upTo_append hclosing, upTo_cons_of_ne hsign, behind_append hclosing, behind_cons_of_ne hsign,
    upTo_append_cons hequals, d.name_trimmed.trim_eq, name?_toList d.name_ne]

/-- All parts but the description are read as they were written. -/
theorem parse_text : parse d.text = {
    title := d.title
    description := String.ofList (dropHyphen (trim (behind ']' (d.preset ++ d.ending))))
    name := some d.name
    type := some d.type.toOptional } := by
  have hword := isWord_of_mem_namedTitles d.named
  have htype : typePart d.title (trimStart
      (' ' :: '{' :: (d.source ++ '}' :: ' ' :: '[' :: d.inside))) =
      { type := some d.type, rest := '[' :: d.inside } := by
    have hbrace : trimStart (' ' :: '{' :: (d.source ++ '}' :: ' ' :: '[' :: d.inside)) =
        '{' :: (d.source ++ '}' :: ' ' :: '[' :: d.inside) :=
      blanks_space.trimStart_append_cons (by decide) _
    have hbracket : trimStart (' ' :: '[' :: d.inside) = '[' :: d.inside :=
      blanks_space.trimStart_append_cons (by decide) _
    rw [hbrace, typePart_braced (mem_typedTitles_of_mem_namedTitles d.named) d.typed, hbracket]
  unfold parse text
  rw [isPrefixOf?_at, Option.getD_some]
  simp only [takeWhile_word hword (startsBlank_space _), dropWhile_word hword (startsBlank_space _),
    String.ofList_toList, htype, if_pos d.named, d.namePart_inside]
  rfl

private theorem getLast?_ending : d.ending.getLast? = d.description.toList.getLast? := by
  have hne := toList_ne_nil d.description_ne
  unfold ending
  rw [List.getLast?_cons_of_ne_nil (List.cons_ne_nil _ _),
    List.getLast?_cons_of_ne_nil (List.cons_ne_nil _ _),
    List.getLast?_cons_of_ne_nil (List.cons_ne_nil _ _), List.getLast?_cons_of_ne_nil hne]

variable {d}

theorem description_of_not_mem (h : ']' ∉ d.preset) :
    (parse d.text).description = d.description := by
  have hrest : behind ']' (d.preset ++ d.ending) = ' ' :: '-' :: ' ' :: d.description.toList :=
    behind_append_cons h _
  have hkept := dropHyphen_trim (toList_ne_nil d.description_ne) d.description_trimmed .nil
  rw [List.append_nil] at hkept
  rw [parse_text, hrest, hkept, String.ofList_toList]

/-- The search for the closing bracket ends inside the default. -/
theorem description_of_mem (h : ']' ∈ d.preset) : (parse d.text).description.toList =
    dropHyphen (trimStart (behind ']' d.preset)) ++ d.ending := by
  have hlast : ∀ c ∈ (behind ']' d.preset ++ d.ending).getLast?, isBlank c = false := by
    have hne : d.ending ≠ [] := List.cons_ne_nil _ _
    rw [List.getLast?_append_of_ne_nil _ hne, getLast?_ending]
    exact d.description_trimmed.2
  have hclosing : isBlank ']' = false := by decide
  rw [parse_text, String.toList_ofList, behind_append_of_mem h, trim_eq_trimStart hlast]
  unfold ending
  rw [trimStart_append_cons hclosing, dropHyphen_append_cons hclosing (by decide)]

theorem description_eq_iff : (parse d.text).description = d.description ↔ ']' ∉ d.preset := by
  refine ⟨fun hkept hmem => ?_, description_of_not_mem⟩
  -- What is read holds the whole ending, so it is longer than the description alone.
  have hlength := congrArg List.length (description_of_mem hmem)
  rw [hkept, List.length_append] at hlength
  simp only [ending, List.length_cons] at hlength
  omega

variable (d)

structure Keeps (t : Tag) : Prop where
  title : t.title = d.title
  name : t.name = some d.name
  errors : t.errors = []
  wrapped : (∀ e, d.type ≠ .optional e) → t.type = some (.optional d.type)
  unwrapped : ∀ e, d.type = .optional e → t.type = some d.type

theorem keeps_parse : d.Keeps (parse d.text) := by
  rw [parse_text]
  refine ⟨rfl, rfl, rfl, fun hne => ?_, fun e he => ?_⟩
  · have hopt : d.type.isOptional = false := by
      cases htype : d.type with
      | optional e => exact absurd htype (hne e)
      | _ => rfl
    simp [TypeExpr.toOptional, hopt]
  · simp [TypeExpr.toOptional, he, TypeExpr.isOptional]

end Defaulted

/-- A tag with a default is read without errors, with its name and its type made optional. Its
description is kept exactly if no closing bracket stands in the default, and if the default is balanced,
exactly if no bracket does. Otherwise the rest of the default comes before the description, with the
bracket that should have closed the name. -/
theorem parse_defaulted_iff (d : Defaulted) :
    d.Keeps (parse d.text) ∧
      ((parse d.text).description = d.description ↔ ']' ∉ d.preset) ∧
      (Balanced '[' ']' d.preset →
        ((parse d.text).description = d.description ↔ '[' ∉ d.preset ∧ ']' ∉ d.preset)) ∧
      (']' ∈ d.preset → (parse d.text).description.toList =
        dropHyphen (trimStart (behind ']' d.preset)) ++ d.ending) := by
  refine ⟨d.keeps_parse, d.description_eq_iff, fun hbalanced => ?_, d.description_of_mem⟩
  rw [d.description_eq_iff, hbalanced.mem_iff, and_self]

def Defaulted.ids (preset : String) : Defaulted where
  title := "param"
  source := "string".toList
  type := .name "string"
  name := "query.ids"
  preset := preset.toList
  description := "Ids"
  named := by decide
  typed := (TypeExpr.Writable.name
    (TypeExpr.isName_of_all (by decide +kernel) (by decide +kernel))).parseChars_print
  name_ne := by decide
  name_trimmed := by decide
  name_closed := by decide
  description_ne := by decide
  description_trimmed := by decide

/-- Blanks, braces, hyphens and equals signs stay inside the default. -/
theorem parse_defaulted_iff_signs :
    (Defaulted.ids "a - \x7bb = c\x7d").text =
        "@param \x7bstring\x7d [query.ids=a - \x7bb = c\x7d] - Ids".toList ∧
      Balanced '[' ']' (Defaulted.ids "a - \x7bb = c\x7d").preset ∧
      (parse (Defaulted.ids "a - \x7bb = c\x7d").text).description = "Ids" := by
  have hbalanced : Balanced '[' ']' (Defaulted.ids "a - \x7bb = c\x7d").preset := by decide
  obtain ⟨-, -, hdescription, -⟩ := parse_defaulted_iff (.ids "a - \x7bb = c\x7d")
  exact ⟨by decide, hbalanced, (hdescription hbalanced).2 (by decide)⟩

/-- An empty list as default closes the name too early. -/
theorem parse_defaulted_spills_list :
    (Defaulted.ids "[]").text = "@param \x7bstring\x7d [query.ids=[]] - Ids".toList ∧
      Balanced '[' ']' (Defaulted.ids "[]").preset ∧
      (parse (Defaulted.ids "[]").text).description = "] - Ids" := by
  have hlist : ']' ∈ (Defaulted.ids "[]").preset := by decide
  have hspilled := Defaulted.description_of_mem hlist
  refine ⟨by decide, by decide, String.toList_injective ?_⟩
  rw [hspilled]
  decide

end Tag

end AnnotatedApi
