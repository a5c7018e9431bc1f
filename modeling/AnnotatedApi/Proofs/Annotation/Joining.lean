import AnnotatedApi.Disk.Files
import AnnotatedApi.Proofs.Annotation.Extraction
import AnnotatedApi.Proofs.Outcome

/-! Files joined by line ends. Neither sign of a comment holds a line end, so none is found across a
joint. Main statement: files whose comments all end have the blocks of their joined texts one after
another, and the document of these blocks is built. -/
namespace AnnotatedApi

open Text Outcome

namespace Text

variable {pattern : List Char} {c : Char}

private theorem prefix_append_cons_iff (hc : c ∉ pattern) (s t : List Char) :
    pattern <+: s ++ c :: t ↔ pattern <+: s := by
  refine ⟨?_, fun h => h.trans (List.prefix_append _ _)⟩
  rintro ⟨rest, h⟩
  rcases List.append_eq_append_iff.1 h with ⟨u, rfl, -⟩ | ⟨u, rfl, hu⟩
  · exact List.prefix_append _ _
  · cases u with
    | nil => simp
    | cons d u =>
      obtain ⟨rfl, -⟩ := List.cons.inj hu
      exact absurd (by simp) hc

/-- A pattern is found before a character that it does not hold, or behind it. -/
theorem cut?_append_cons (hne : pattern ≠ []) (hc : c ∉ pattern) (s t : List Char) :
    cut? pattern (s ++ c :: t) =
      ((cut? pattern s).map fun p => (p.1, p.2 ++ c :: t)).or
        ((cut? pattern t).map fun p => (s ++ c :: p.1, p.2)) := by
  induction s with
  | nil =>
    have hno : ¬pattern <+: c :: t := by
      rw [← List.nil_append (c :: t), prefix_append_cons_iff hc, List.prefix_nil]
      exact hne
    simp [cut?, hno, hne]
  | cons d s ih =>
    have hiff := prefix_append_cons_iff hc (d :: s) t
    rw [List.cons_append, cut?, cut?, ← List.cons_append]
    by_cases h : pattern <+: d :: s
    · rw [if_pos h, if_pos (hiff.2 h), List.drop_append_of_le_length h.length_le]
      rfl
    · rw [if_neg h, if_neg (mt hiff.1 h), ih]
      cases cut? pattern s <;> simp [Function.comp_def]

theorem cut?_append_of_not_mem {p : Char} {ps u : List Char} (h : p ∉ u) (s : List Char) :
    cut? (p :: ps) (u ++ s) = (cut? (p :: ps) s).map fun q => (u ++ q.1, q.2) := by
  induction u with
  | nil => simp
  | cons d u ih =>
    rw [List.mem_cons, not_or] at h
    have hno : ¬p :: ps <+: d :: (u ++ s) := fun hd => h.1 (List.cons_prefix_cons.1 hd).1
    simp [cut?, hno, ih h.2, Function.comp_def]

theorem cut?_eq_none_of_not_mem {p : Char} {ps s : List Char} (h : p ∉ s) :
    cut? (p :: ps) s = none := by
  have hcut : cut? (p :: ps) (s ++ []) = _ := cut?_append_of_not_mem h []
  rwa [List.append_nil] at hcut

end Text

namespace Comments

/-- A text whose comments all end keeps them, whatever follows on the next line. -/
theorem extract_append_newline (s t : List Char) (h : (extract s).unterminated = false) :
    extract (s ++ '\n' :: t) =
      ⟨(extract s).bodies ++ (extract t).bodies, (extract t).unterminated⟩ := by
  induction hn : s.length using Nat.strong_induction_on generalizing s with
  | _ n ih =>
    have hopen : cut? ['/', '*', '*'] (s ++ '\n' :: t) = _ :=
      cut?_append_cons (by simp) (by decide) s t
    cases hcut : cut? ['/', '*', '*'] s with
    | none =>
      rw [hcut, Option.map_none, Option.none_or] at hopen
      have hrest : extract (s ++ '\n' :: t) = extract t := by
        apply extract_eq_of_rest
        rw [hopen]
        simp [Function.comp_def]
      rw [hrest, extract_of_no_opening hcut]
      rfl
    | some p =>
      obtain ⟨gap, rest⟩ := p
      have hshort := length_lt_of_cut? hcut
      rw [hcut, Option.map_some, Option.some_or] at hopen
      by_cases hr : rest.head? = some '/'
      · obtain ⟨rest, rfl⟩ := List.head?_eq_some_iff.1 hr
        rw [extract_of_plain hcut] at h ⊢
        rw [List.cons_append] at hopen
        rw [extract_of_plain hopen]
        exact ih _ (by simp at hshort; omega) rest h rfl
      · have hr' : (rest ++ '\n' :: t).head? ≠ some '/' := by
          cases rest with
          | nil => simp
          | cons d rest => exact hr
        cases hend : cut? ['*', '/'] rest with
        | none =>
          rw [extract_of_unterminated hcut hr hend] at h
          cases h
        | some q =>
          obtain ⟨body, rest'⟩ := q
          have hclose : cut? ['*', '/'] (rest ++ '\n' :: t) = _ :=
            cut?_append_cons (by simp) (by decide) rest t
          rw [hend, Option.map_some, Option.some_or] at hclose
          rw [extract_of_comment hcut hr hend] at h ⊢
          have hshort' := length_lt_of_cut? hend
          rw [extract_of_comment hopen hr' hclose, ih _ (by omega) rest' h rfl]
          rfl

end Comments

namespace Annotations

theorem warnings_eq_nil_iff {a : Annotations} : a.warnings = [] ↔ a.unterminated = false := by
  unfold warnings
  cases a.unterminated <;> simp

theorem parse_append_newline {s : String} (h : (parse s).warnings = []) (t : String) :
    parse (s ++ "\n" ++ t) = ⟨(parse s).blocks ++ (parse t).blocks, (parse t).unterminated⟩ := by
  have hjoin : (s ++ "\n" ++ t).toList = s.toList ++ '\n' :: t.toList := by simp
  have hextract := Comments.extract_append_newline s.toList t.toList (warnings_eq_nil_iff.1 h)
  unfold parse
  rw [hjoin, hextract]
  simp only [List.map_append]

/-- Texts whose comments all end, the last one apart, do not run into each other. -/
theorem parse_intercalate {texts : List String}
    (h : ∀ text ∈ texts.dropLast, (parse text).warnings = []) :
    (parse ("\n".intercalate texts)).blocks = texts.flatMap (fun text => (parse text).blocks) ∧
      (parse ("\n".intercalate texts)).warnings =
        texts.flatMap (fun text => (parse text).warnings) := by
  induction texts with
  | nil =>
    have hempty : Comments.extract [] = {} := Comments.extract_of_no_opening rfl
    simp [parse, hempty, warnings]
  | cons s texts ih =>
    cases texts with
    | nil => simp
    | cons t texts =>
      rw [List.dropLast_cons_cons, List.forall_mem_cons] at h
      obtain ⟨hblocks, hwarnings⟩ := ih h.2
      rw [String.intercalate_cons_cons, parse_append_newline h.1, List.flatMap_cons, ← hblocks,
        List.flatMap_cons, h.1, ← hwarnings]
      exact ⟨rfl, rfl⟩

end Annotations

namespace Disk

private theorem isNone_find?_of_readText {d : Disk} {path text : String}
    (h : d.readText path = .ok text) : (d.find? path).isNone = false := by
  unfold readText at h
  cases he : d.find? path with
  | none =>
    rw [he] at h
    cases h
  | some e => rfl

theorem readAll_eq_ok {d : Disk} {paths texts : List String}
    (h : List.Forall₂ (fun path text => d.readText path = .ok text) paths texts) :
    d.readAll paths = .ok ("\n".intercalate texts) := by
  have hmissing : paths.filter (fun p => (d.find? p).isNone) = [] := by
    refine List.filter_eq_nil_iff.2 ?_
    intro path hpath
    obtain ⟨text, _, htext⟩ := exists_of_forall₂ h.flip hpath
    simp [isNone_find?_of_readText htext]
  unfold readAll
  rw [hmissing, mapM_eq_ok_of_forall₂ h]
  rfl

end Disk

theorem Document.build_eq (settings : Settings) (text : String) :
    build settings text =
      if settings.hasServers then
        (ofBlocks settings (Annotations.parse text).blocks).map fun r =>
          (r.1, (Annotations.parse text).warnings ++ r.2)
      else .error .missingServers := by
  unfold build
  dsimp only
  split
  · cases ofBlocks settings (Annotations.parse text).blocks <;> rfl
  · rfl

/-- Readable files are read one after another as if each stood alone, and the document of all their
blocks is built, if there are servers. -/
theorem Document.buildFiles_eq_ofBlocks (settings : Settings) {d : Disk} {paths texts : List String}
    (hread : List.Forall₂ (fun path text => d.readText path = .ok text) paths texts)
    (hends : ∀ text ∈ texts.dropLast, (Annotations.parse text).warnings = []) :
    ∃ text, d.readAll paths = .ok text ∧ text = "\n".intercalate texts ∧
      (Annotations.parse text).blocks = texts.flatMap (fun t => (Annotations.parse t).blocks) ∧
      buildFiles settings d paths =
        if settings.hasServers then
          (ofBlocks settings (texts.flatMap fun t => (Annotations.parse t).blocks)).map fun r =>
            (r.1, (texts.flatMap fun t => (Annotations.parse t).warnings) ++ r.2)
        else .error .missingServers := by
  obtain ⟨hblocks, hwarnings⟩ := Annotations.parse_intercalate hends
  refine ⟨_, Disk.readAll_eq_ok hread, rfl, hblocks, ?_⟩
  rw [← hblocks, ← hwarnings, ← build_eq, buildFiles, Disk.readAll_eq_ok hread]
  rfl

/-- Texts whose ends and starts would make signs of comments, were it not for the line ends. -/
def petTexts : List String :=
  ["/** @typedef Pet */ /**/ /", "** no comment */ /*", "*/ /** @typedef Tag */ /** open"]

def petDisk : Disk where
  root := .directory [("a", .file "/** @typedef Pet */ /**/ /".toUTF8),
    ("b", .file "** no comment */ /*".toUTF8), ("c", .file "*/ /** @typedef Tag */ /** open".toUTF8)]

def petServer : Settings := { config := { servers := some [⟨"/", none⟩] } }

theorem Document.buildFiles_eq_ofBlocks_pets :
    List.Forall₂ (fun path text => petDisk.readText path = .ok text) ["a", "b", "c"] petTexts ∧
      (∀ text ∈ petTexts.dropLast, (Annotations.parse text).warnings = []) ∧
      ∃ text, petDisk.readAll ["a", "b", "c"] = .ok text ∧ text = "\n".intercalate petTexts ∧
        (Annotations.parse text).blocks = petTexts.flatMap (fun t => (Annotations.parse t).blocks) ∧
        buildFiles petServer petDisk ["a", "b", "c"] =
          (ofBlocks petServer (petTexts.flatMap fun t => (Annotations.parse t).blocks)).map fun r =>
            (r.1, (petTexts.flatMap fun t => (Annotations.parse t).warnings) ++ r.2) := by
  have hread : List.Forall₂ (fun path text => petDisk.readText path = .ok text) ["a", "b", "c"]
      petTexts :=
    .cons (toOption_eq_some.1 (by decide +kernel)) (.cons (toOption_eq_some.1 (by decide +kernel))
      (.cons (toOption_eq_some.1 (by decide +kernel)) .nil))
  have hends : ∀ text ∈ petTexts.dropLast, (Annotations.parse text).warnings = [] := by decide +kernel
  exact ⟨hread, hends, buildFiles_eq_ofBlocks petServer hread hends⟩

end AnnotatedApi
