import AnnotatedApi.Proofs.Annotation.BlockText

/-! Where the lines of a comment go. Main statement: the lines that open a tag cut a comment into the lines
before its tags and the lines of each tag, and from these its description and its tags are read. -/
namespace AnnotatedApi

open Text

/-- The lines up to the next one that opens a tag, or up to the end. -/
def UpToTag (ls upTo : List (List Char)) : Prop :=
  ∃ behind, ls = upTo ++ behind ∧ (∀ l ∈ upTo, opensTag l = false) ∧ ∀ l ∈ behind.head?, opensTag l

/-- The lines of tag number `i`, counted from 0: the line that opens it, without the blanks in front, and
the lines up to the next tag. -/
def TagLines (ls : List (List Char)) (i : Nat) (text : List (List Char)) : Prop :=
  ∃ front line behind upTo, ls = front ++ line :: behind ∧ opensTag line ∧
    front.countP opensTag = i ∧ UpToTag behind upTo ∧ text = trimStart line :: upTo

theorem sections_cons_of_opensTag {line : List Char} (h : opensTag line) (ls : List (List Char)) :
    sections (line :: ls) = ([], (trimStart line :: (sections ls).1) :: (sections ls).2) := by
  rw [sections, h]
  rfl

theorem sections_cons_of_not_opensTag {line : List Char} (h : opensTag line = false)
    (ls : List (List Char)) :
    sections (line :: ls) = (line :: (sections ls).1, (sections ls).2) := by
  rw [sections, h]
  rfl

/-- A line that opens a tag ends what stands before it, and what stands behind it changes nothing there. -/
theorem sections_append_tag {line : List Char} (h : opensTag line) (front behind : List (List Char)) :
    sections (front ++ line :: behind) = ((sections front).1,
      (sections front).2 ++ (trimStart line :: (sections behind).1) :: (sections behind).2) := by
  induction front with
  | nil => exact sections_cons_of_opensTag h behind
  | cons l front ih =>
    rw [List.cons_append]
    cases hl : opensTag l with
    | true => rw [sections_cons_of_opensTag hl, sections_cons_of_opensTag hl, ih, List.cons_append]
    | false => rw [sections_cons_of_not_opensTag hl, sections_cons_of_not_opensTag hl, ih]

theorem length_sections (ls : List (List Char)) : (sections ls).2.length = ls.countP opensTag := by
  induction ls with
  | nil => rfl
  | cons l ls ih =>
    cases hl : opensTag l with
    | true => rw [sections_cons_of_opensTag hl, List.length_cons, ih, List.countP_cons_of_pos hl]
    | false => rw [sections_cons_of_not_opensTag hl, ih, List.countP_cons_of_neg (by simp [hl])]

theorem upToTag_sections (ls : List (List Char)) : UpToTag ls (sections ls).1 := by
  induction ls with
  | nil => exact ⟨[], rfl, by simp [sections], by simp⟩
  | cons l ls ih =>
    cases hl : opensTag l with
    | true =>
      rw [sections_cons_of_opensTag hl]
      exact ⟨l :: ls, rfl, by simp, by simpa using hl⟩
    | false =>
      obtain ⟨behind, hls, hupTo, hbehind⟩ := ih
      rw [sections_cons_of_not_opensTag hl]
      exact ⟨behind, congrArg (l :: ·) hls, List.forall_mem_cons.2 ⟨hl, hupTo⟩, hbehind⟩

theorem upToTag_iff {ls upTo : List (List Char)} : UpToTag ls upTo ↔ upTo = (sections ls).1 := by
  refine ⟨?_, fun h => h ▸ upToTag_sections ls⟩
  rintro ⟨behind, rfl, hupTo, hbehind⟩
  rw [sections_append hupTo]
  cases behind with
  | nil => simp [sections]
  | cons line behind => rw [sections_cons_of_opensTag (hbehind line rfl), List.append_nil]

private theorem exists_append_of_lt_countP {ls : List (List Char)} {i : Nat}
    (h : i < ls.countP opensTag) :
    ∃ front line behind, ls = front ++ line :: behind ∧ opensTag line ∧
      front.countP opensTag = i := by
  induction ls generalizing i with
  | nil => simp at h
  | cons l ls ih =>
    cases hl : opensTag l with
    | false =>
      rw [List.countP_cons_of_neg (by simp [hl])] at h
      obtain ⟨front, line, behind, rfl, hline, hfront⟩ := ih h
      exact ⟨l :: front, line, behind, rfl, hline, by rwa [List.countP_cons_of_neg (by simp [hl])]⟩
    | true =>
      rw [List.countP_cons_of_pos hl] at h
      cases i with
      | zero => exact ⟨[], l, ls, rfl, hl, rfl⟩
      | succ i =>
        obtain ⟨front, line, behind, rfl, hline, hfront⟩ := ih (Nat.lt_of_succ_lt_succ h)
        exact ⟨l :: front, line, behind, rfl, hline, by rw [List.countP_cons_of_pos hl, hfront]⟩

theorem TagLines.getElem?_sections {ls text : List (List Char)} {i : Nat} (h : TagLines ls i text) :
    (sections ls).2[i]? = some text := by
  obtain ⟨front, line, behind, upTo, rfl, hline, rfl, hupTo, rfl⟩ := h
  rw [sections_append_tag hline, ← length_sections front, List.getElem?_append_right (Nat.le_refl _),
    Nat.sub_self, List.getElem?_cons_zero, upToTag_iff.1 hupTo]

theorem getElem?_sections_iff {ls text : List (List Char)} {i : Nat} :
    (sections ls).2[i]? = some text ↔ TagLines ls i text := by
  refine ⟨fun h => ?_, TagLines.getElem?_sections⟩
  -- There is such a tag, so some line opens it, and the lines from there on are those of the tag.
  obtain ⟨hi, -⟩ := List.getElem?_eq_some_iff.1 h
  rw [length_sections] at hi
  obtain ⟨front, line, behind, hls, hline, hfront⟩ := exists_append_of_lt_countP hi
  have htag : TagLines ls i (trimStart line :: (sections behind).1) :=
    ⟨front, line, behind, _, hls, hline, hfront, upToTag_sections behind, rfl⟩
  rw [htag.getElem?_sections] at h
  exact Option.some.inj h ▸ htag

namespace Block

def unwrapped (body : List Char) : List (List Char) := (lines body).map unwrapLine

/-- A comment has as many tags as lines that open one. Each tag is read from the line that opens it and all
lines up to the next tag, and the description from the lines before the first. -/
theorem parse_places_lines (body : List Char) :
    (parse body).tags.length = (unwrapped body).countP opensTag ∧
      (∀ i t, (parse body).tags[i]? = some t ↔
        ∃ text, TagLines (unwrapped body) i text ∧ t = Tag.parse (joinWith '\n' text)) ∧
      ∃ before, UpToTag (unwrapped body) before ∧
        (parse body).description = String.ofList (trim (joinWith '\n' before)) := by
  have htags : (parse body).tags =
      (sections (unwrapped body)).2.map fun ls => Tag.parse (joinWith '\n' ls) := rfl
  refine ⟨?_, ?_, _, upToTag_sections (unwrapped body), rfl⟩
  · rw [htags, List.length_map, length_sections]
  · intro i t
    rw [htags, List.getElem?_map, Option.map_eq_some_iff]
    exact exists_congr fun text => and_congr getElem?_sections_iff eq_comm

-- Lines that are blank or hold only a star belong to the tag before them, at any indentation.
example : ((sections (unwrapped "\n * Pets\n *\n *\t @tags a\n\n *  b\n   *\n@tags c".toList)).2.map
    fun text => text.map String.ofList) = [["@tags a", "", " b", ""], ["@tags c"]] := by
  decide +kernel

end Block

end AnnotatedApi
