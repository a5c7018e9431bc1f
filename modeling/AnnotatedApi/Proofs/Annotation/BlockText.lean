import AnnotatedApi.Proofs.Annotation.TagText

/-! Writing blocks as documentation comments. Main statement: blocks in normal form are read back from
the comments that they are written as, in order. -/
namespace AnnotatedApi

open Text

structure IsLine (l : List Char) : Prop where
  not_mem_newline : '\n' ∉ l
  not_mem_return : '\r' ∉ l
  staysOpen : StaysOpen l

namespace Block

/-- The lines of a block: those of its description, then those of each tag. -/
def contentLines (b : Block) : List (List Char) :=
  lines b.description.toList ++ b.tags.flatMap fun t => lines t.text

def textLines (b : Block) : List (List Char) :=
  ['/', '*', '*'] :: b.contentLines.map ([' ', '*', ' '] ++ ·) ++ [[' ', '*', '/']]

def text (b : Block) : List Char := b.textLines.flatMap (· ++ ['\n'])

/-- A block with nothing in it that its text cannot express. No line of the description opens a tag. -/
structure IsNormal (b : Block) : Prop where
  description : IsProse b.description.toList
  description_lines : ∀ l ∈ lines b.description.toList, opensTag l = false
  tags : ∀ t ∈ b.tags, t.IsNormal

end Block

def Annotations.render (blocks : List Block) : String :=
  String.ofList (blocks.flatMap Block.text)

theorem IsWord.not_mem {s : List Char} (h : IsWord s) {c : Char} (hc : isBlank c) : c ∉ s := by
  intro hm
  rw [h.not_isBlank c hm] at hc
  exact Bool.false_ne_true hc

theorem IsProse.getLast?_ne {s : List Char} (h : IsProse s) : s.getLast? ≠ some '\n' := by
  intro hl
  exact Bool.noConfusion (h.trimmed.2 _ hl)

theorem IsProse.lines_eq_splitOn {s : List Char} (h : IsProse s) (hne : s ≠ []) :
    lines s = s.splitOn '\n' :=
  Text.lines_eq_splitOn h.not_mem_return hne h.getLast?_ne

theorem isLine_of_mem_splitOn {s l : List Char} (hr : '\r' ∉ s) (ho : StaysOpen s)
    (hl : l ∈ s.splitOn '\n') : IsLine l where
  not_mem_newline := not_mem_of_mem_splitOn hl
  not_mem_return := fun hm => hr ((infix_of_mem_splitOn hl).subset hm)
  staysOpen := ho.of_isInfix (infix_of_mem_splitOn hl)

theorem IsProse.isLine_of_mem_lines {s l : List Char} (h : IsProse s) (hl : l ∈ lines s) :
    IsLine l := by
  have hne : s ≠ [] := by
    rintro rfl
    exact List.not_mem_nil hl
  rw [h.lines_eq_splitOn hne] at hl
  exact isLine_of_mem_splitOn h.not_mem_return h.staysOpen hl

theorem TypeExpr.Writable.isWord_print {e : TypeExpr} (h : e.Writable) : IsWord e.print where
  not_isBlank c hc := by
    by_contra hb
    rw [Bool.not_eq_false] at hb
    have hp : c ∉ Grammar.punctuation := by
      intro hm
      rw [Grammar.not_isBlank_of_mem_punctuation c hm] at hb
      exact Bool.false_ne_true hb
    refine h.not_mem_print ?_ hc
    rw [isTypeChar, Grammar.not_isNamePart_of_isBlank hb, Bool.false_or, List.contains_eq_mem,
      decide_eq_false hp]
  staysOpen := staysOpen_of_not_mem (h.not_mem_print (by decide +kernel))

namespace Tag

theorem StartsBlank.head?_ne {s : List Char} (h : StartsBlank s) : s.head? ≠ some '/' := by
  intro hs
  exact Bool.noConfusion (h _ hs)

namespace IsNormal

variable {t : Tag} (h : t.IsNormal)

include h

theorem isWord_type {e : TypeExpr} (he : t.type = some e) : IsWord e.print :=
  (TypeExpr.exists_parse_eq_ok_iff_writable.1 (h.type e he).2).isWord_print

/-- The description apart, no blank but a space stands in a tag. -/
theorem not_mem_header {c : Char} (hc : isBlank c) (hs : c ≠ ' ') :
    c ∉ '@' :: (t.title.toList ++ (t.typeText ++ t.nameText)) := by
  have hc' : ∀ d, isBlank d = false → c ≠ d := by
    rintro d hd rfl
    exact Bool.noConfusion (hd.symm.trans hc)
  have htitle := h.title.not_mem hc
  have htype : c ∉ t.typeText := by
    unfold typeText
    cases he : t.type with
    | none => exact List.not_mem_nil
    | some e =>
      have hopen := hc' '{' (by decide)
      have hclose := hc' '}' (by decide)
      simp [hs, hopen, hclose, (h.isWord_type he).not_mem hc]
  have hname : c ∉ t.nameText := by
    unfold nameText
    cases hn : t.name with
    | none => exact List.not_mem_nil
    | some n => simp [hs, (h.name n hn).not_mem hc]
  have hat := hc' '@' (by decide)
  simp [hat, htitle, htype, hname]

theorem exists_text_eq_append : ∃ header : List Char, header.head? = some '@' ∧
    (∀ c, isBlank c → c ≠ ' ' → c ∉ header) ∧ t.text = header ++ t.description.toList := by
  unfold text descriptionText
  split
  next hd =>
    refine ⟨_, rfl, fun c hc hs => h.not_mem_header hc hs, ?_⟩
    simp [hd]
  next =>
    refine ⟨('@' :: (t.title.toList ++ (t.typeText ++ t.nameText))) ++ [' ', '-', ' '], rfl, ?_, ?_⟩
    · intro c hc hs hm
      rcases List.mem_append.1 hm with hm | hm
      · exact h.not_mem_header hc hs hm
      · have hd : c = '-' := by simpa [hs] using hm
        rw [hd] at hc
        exact Bool.noConfusion hc
    · simp

theorem staysOpen_text : StaysOpen t.text := by
  have hw : Blanks [] := Blanks.nil
  have htype : StaysOpen t.typeText := by
    unfold typeText
    cases he : t.type with
    | none => exact staysOpen_of_not_mem List.not_mem_nil
    | some e =>
      have hclose : StaysOpen ['}'] := staysOpen_of_not_mem (by decide)
      exact (((h.isWord_type he).staysOpen.append hclose (by decide)).cons (by decide)).cons
        (by decide)
  have hname : StaysOpen t.nameText := by
    unfold nameText
    cases hn : t.name with
    | none => exact staysOpen_of_not_mem List.not_mem_nil
    | some n => exact (h.name n hn).staysOpen.cons (by decide)
  have hdescription : StaysOpen t.descriptionText := by
    unfold descriptionText
    split
    · exact staysOpen_of_not_mem List.not_mem_nil
    · exact ((h.description.staysOpen.cons (by decide)).cons (by decide)).cons (by decide)
  have hd := (startsBlank_descriptionText (t := t) hw).head?_ne
  have hn := (startsBlank_nameText (t := t) hw).head?_ne
  have ht := (startsBlank_typeText (t := t) hw).head?_ne
  rw [List.append_nil] at hd hn ht
  exact (h.title.staysOpen.append (htype.append (hname.append hdescription hd) hn) ht).cons (by decide)

theorem not_mem_return_text : '\r' ∉ t.text := by
  obtain ⟨header, _, hclear, htext⟩ := h.exists_text_eq_append
  rw [htext, List.mem_append, not_or]
  exact ⟨hclear _ (by decide) (by decide), h.description.not_mem_return⟩

theorem lines_text : lines t.text = t.text.splitOn '\n' := by
  obtain ⟨header, _, hclear, htext⟩ := h.exists_text_eq_append
  refine Text.lines_eq_splitOn h.not_mem_return_text (List.cons_ne_nil _ _) ?_
  intro hl
  rw [htext] at hl
  by_cases hd : t.description.toList = []
  · rw [hd, List.append_nil] at hl
    exact hclear _ (by decide) (by decide) (List.mem_of_getLast? hl)
  · rw [List.getLast?_append_of_ne_nil _ hd] at hl
    exact h.description.getLast?_ne hl

/-- The lines of a tag: the first opens it, and no other does. -/
theorem exists_lines_text : ∃ first rest, lines t.text = first :: rest ∧
    first.head? = some '@' ∧ (∀ l ∈ rest, opensTag l = false) ∧
    joinWith '\n' (first :: rest) = t.text ∧ ∀ l ∈ first :: rest, IsLine l := by
  obtain ⟨header, hhead, hclear, htext⟩ := h.exists_text_eq_append
  have hne : header ≠ [] := by
    rintro rfl
    simp at hhead
  -- The header stands on the first line, so the other lines are those of the description.
  obtain ⟨first, rest, hsplit⟩ :=
    List.exists_cons_of_ne_nil (List.splitOn_ne_nil '\n' t.description.toList)
  have hsplit' : t.text.splitOn '\n' = (header ++ first) :: rest := by
    rw [htext, splitOn_append (hclear _ (by decide) (by decide)), hsplit]
    rfl
  refine ⟨header ++ first, rest, h.lines_text.trans hsplit', ?_, ?_, ?_, ?_⟩
  · rwa [List.head?_append_of_ne_nil _ hne]
  · intro l hl
    have hd : t.description.toList ≠ [] := by
      intro hd
      rw [hd, List.splitOn_nil] at hsplit
      cases hsplit
      exact List.not_mem_nil hl
    apply h.description_lines
    rwa [h.description.lines_eq_splitOn hd, hsplit]
  · rw [← hsplit']
    exact List.intercalate_splitOn '\n'
  · rw [← hsplit']
    exact fun l hl => isLine_of_mem_splitOn h.not_mem_return_text h.staysOpen_text hl

end IsNormal

end Tag

theorem unwrapLine_star (l : List Char) : unwrapLine ([' ', '*', ' '] ++ l) = l := by
  have ht : trimStart ([' ', '*', ' '] ++ l) = '*' :: ' ' :: l :=
    blanks_space.trimStart_append_cons (by decide) _
  unfold unwrapLine
  rw [ht]
  rfl

theorem unwrapLine_append_blanks {w : List Char} (h : Blanks w) (l : List Char) :
    unwrapLine (w ++ l) = unwrapLine l := by
  unfold unwrapLine
  rw [h.trimStart_append]

theorem sections_append {ls : List (List Char)} (h : ∀ l ∈ ls, opensTag l = false)
    (more : List (List Char)) :
    sections (ls ++ more) = (ls ++ (sections more).1, (sections more).2) := by
  induction ls with
  | nil => rfl
  | cons l ls ih =>
    obtain ⟨hl, hls⟩ := List.forall_mem_cons.1 h
    rw [List.cons_append, sections, ih hls, hl]
    rfl

theorem sections_tag {first : List Char} {ls : List (List Char)} (hf : first.head? = some '@')
    (h : ∀ l ∈ ls, opensTag l = false) (more : List (List Char)) :
    sections (first :: (ls ++ more)) =
      ([], (first :: (ls ++ (sections more).1)) :: (sections more).2) := by
  have ht : trimStart first = first := by
    apply trimStart_eq_self
    intro c hc
    rw [hf] at hc
    cases hc
    decide
  have ho : opensTag first = true := by
    rw [opensTag, ht, hf]
    rfl
  rw [sections, sections_append h, ho, ht]
  rfl

/-- What the last line of a comment leaves behind the last tag: nothing, or one empty line. -/
def IsPadding (ls : List (List Char)) : Prop := ls = [] ∨ ls = [[]]

theorem joinWith_cons {ls : List (List Char)} (h : ls ≠ []) (l : List Char) :
    joinWith '\n' (l :: ls) = l ++ '\n' :: joinWith '\n' ls := by
  unfold joinWith
  rw [List.intercalate_cons_of_ne_nil h, List.append_assoc]
  rfl

private theorem joinWith_concat_nil {ls : List (List Char)} (h : ls ≠ []) :
    joinWith '\n' (ls ++ [[]]) = joinWith '\n' ls ++ ['\n'] := by
  induction ls with
  | nil => exact absurd rfl h
  | cons l ls ih =>
    cases ls with
    | nil => simp [joinWith]
    | cons l' ls =>
      have hne : l' :: ls ≠ [] := List.cons_ne_nil l' ls
      rw [List.cons_append, joinWith_cons (by simp), ih hne, joinWith_cons hne, List.append_assoc]
      rfl

theorem IsPadding.exists_joinWith {ls pad : List (List Char)} (hp : IsPadding pad) (h : ls ≠ []) :
    ∃ w, Blanks w ∧ joinWith '\n' (ls ++ pad) = joinWith '\n' ls ++ w := by
  rcases hp with rfl | rfl
  · exact ⟨[], Blanks.nil, by rw [List.append_nil, List.append_nil]⟩
  · exact ⟨['\n'], blanks_singleton (by decide), joinWith_concat_nil h⟩

theorem sections_tagLines {tags : List Tag} (h : ∀ t ∈ tags, t.IsNormal) :
    IsPadding (sections (tags.flatMap (fun t => lines t.text) ++ [[]])).1 ∧
      (sections (tags.flatMap (fun t => lines t.text) ++ [[]])).2.map
        (fun ls => Tag.parse (joinWith '\n' ls)) = tags := by
  induction tags with
  | nil => exact ⟨.inr rfl, rfl⟩
  | cons t tags ih =>
    -- What stands before the next tag is padding, and reading this tag takes it off.
    obtain ⟨ht, htags⟩ := List.forall_mem_cons.1 h
    obtain ⟨hpad, hparse⟩ := ih htags
    obtain ⟨first, rest, hlines, hf, hrest, hjoin, _⟩ := ht.exists_lines_text
    obtain ⟨w, hw, hw'⟩ := hpad.exists_joinWith (List.cons_ne_nil first rest)
    rw [List.flatMap_cons, hlines, List.append_assoc, List.cons_append, sections_tag hf hrest]
    refine ⟨.inl rfl, ?_⟩
    rw [List.map_cons, hparse, ← List.cons_append, hw', hjoin, ht.parse_text hw]

namespace Block

def starred (ls : List (List Char)) : List Char :=
  ls.flatMap fun l => [' ', '*', ' '] ++ l ++ ['\n']

def body (b : Block) : List Char := '\n' :: (starred b.contentLines ++ [' '])

theorem text_eq (b : Block) : b.text = '/' :: '*' :: '*' :: (b.body ++ '*' :: '/' :: ['\n']) := by
  simp [text, textLines, body, starred, List.flatMap_map]

theorem staysOpen_starred {ls : List (List Char)} (h : ∀ l ∈ ls, IsLine l) :
    StaysOpen (starred ls ++ [' ']) := by
  induction ls with
  | nil => exact staysOpen_of_not_mem (by decide)
  | cons l ls ih =>
    obtain ⟨hl, hls⟩ := List.forall_mem_cons.1 h
    have hstar : StaysOpen [' ', '*'] := staysOpen_of_not_mem (by decide)
    have hrest : StaysOpen (l ++ '\n' :: (starred ls ++ [' '])) :=
      hl.staysOpen.append ((ih hls).cons (by decide)) (by simp)
    have hs : starred (l :: ls) ++ [' '] =
        [' ', '*'] ++ ' ' :: (l ++ '\n' :: (starred ls ++ [' '])) := by
      simp [starred]
    rw [hs]
    exact hstar.append (hrest.cons (by decide)) (by simp)

/-- Unwrapping takes the stars off again. The end of the comment leaves an empty line. -/
theorem lines_starred {ls : List (List Char)} (h : ∀ l ∈ ls, IsLine l) :
    (lines (starred ls ++ [' '])).map unwrapLine = ls ++ [[]] := by
  induction ls with
  | nil => rfl
  | cons l ls ih =>
    obtain ⟨hl, hls⟩ := List.forall_mem_cons.1 h
    have hn : '\n' ∉ [' ', '*', ' '] ++ l := by simp [hl.not_mem_newline]
    have hr : '\r' ∉ [' ', '*', ' '] ++ l := by simp [hl.not_mem_return]
    have hs : starred (l :: ls) ++ [' '] =
        ([' ', '*', ' '] ++ l) ++ '\n' :: (starred ls ++ [' ']) := by
      simp [starred]
    rw [hs, lines_append_newline hn, dropReturn_eq_self hr, List.map_cons, unwrapLine_star, ih hls]
    rfl

namespace IsNormal

variable {b : Block} (h : b.IsNormal)

include h

theorem isLine_of_mem_contentLines {l : List Char} (hl : l ∈ b.contentLines) : IsLine l := by
  unfold contentLines at hl
  rcases List.mem_append.1 hl with hl | hl
  · exact h.description.isLine_of_mem_lines hl
  · obtain ⟨t, ht, hl⟩ := List.mem_flatMap.1 hl
    obtain ⟨first, rest, hlines, _, _, _, hline⟩ := (h.tags t ht).exists_lines_text
    rw [hlines] at hl
    exact hline l hl

theorem staysOpen_body : StaysOpen b.body :=
  (staysOpen_starred fun _ hl => h.isLine_of_mem_contentLines hl).cons (by decide)

theorem lines_body : (lines b.body).map unwrapLine = [] :: (b.contentLines ++ [[]]) := by
  unfold body
  rw [← List.nil_append ('\n' :: _), lines_append_newline List.not_mem_nil, List.map_cons,
    lines_starred fun _ hl => h.isLine_of_mem_contentLines hl]
  rfl

/-- The line ends around the description are blank. -/
theorem exists_joinWith_description {pad : List (List Char)} (hp : IsPadding pad) :
    ∃ v w, Blanks v ∧ Blanks w ∧
      joinWith '\n' ([] :: (lines b.description.toList ++ pad)) =
        v ++ (b.description.toList ++ w) := by
  by_cases hd : b.description.toList = []
  · obtain ⟨w, hw, hjoin⟩ := hp.exists_joinWith (List.cons_ne_nil [] [])
    exact ⟨[], w, Blanks.nil, hw, by rw [hd]; exact hjoin⟩
  · have hs := h.description.lines_eq_splitOn hd
    have hne : lines b.description.toList ≠ [] := by
      rw [hs]
      exact List.splitOn_ne_nil _ _
    obtain ⟨w, hw, hjoin⟩ := hp.exists_joinWith hne
    refine ⟨['\n'], w, blanks_singleton (by decide), hw, ?_⟩
    rw [joinWith_cons (by simp [hne]), hjoin, hs, joinWith, List.intercalate_splitOn]
    rfl

theorem parse_body : parse b.body = b := by
  obtain ⟨hpad, htags⟩ := sections_tagLines h.tags
  obtain ⟨v, w, hv, hw, hjoin⟩ := h.exists_joinWith_description hpad
  have hsections : sections ((lines b.body).map unwrapLine) =
      ([] :: (lines b.description.toList ++
        (sections (b.tags.flatMap (fun t => lines t.text) ++ [[]])).1),
        (sections (b.tags.flatMap (fun t => lines t.text) ++ [[]])).2) := by
    have hls : ∀ l ∈ [] :: lines b.description.toList, opensTag l = false :=
      List.forall_mem_cons.2 ⟨rfl, h.description_lines⟩
    rw [h.lines_body, contentLines, List.append_assoc, ← List.cons_append, sections_append hls]
    rfl
  unfold parse
  rw [hsections]
  dsimp only
  rw [hjoin, h.description.trimmed.trim_append hv hw, htags, String.ofList_toList]

end IsNormal

end Block

theorem Comments.extract_text {blocks : List Block} (h : ∀ b ∈ blocks, b.IsNormal) :
    extract (blocks.flatMap Block.text) = { bodies := blocks.map Block.body } := by
  induction blocks with
  | nil => exact extract_of_no_opening rfl
  | cons b blocks ih =>
    obtain ⟨hb, hblocks⟩ := List.forall_mem_cons.1 h
    have hs : (b :: blocks).flatMap Block.text =
        '/' :: '*' :: '*' :: (b.body ++ '*' :: '/' :: '\n' :: blocks.flatMap Block.text) := by
      rw [List.flatMap_cons, b.text_eq]
      simp
    rw [hs, extract_append (by simp [Block.body]) hb.staysOpen_body, extract_cons (by decide),
      ih hblocks]
    rfl

/-- Blocks in normal form survive being written and read. -/
theorem Annotations.parse_render (blocks : List Block) (h : ∀ b ∈ blocks, b.IsNormal) :
    Annotations.parse (Annotations.render blocks) = ⟨blocks, false⟩ := by
  have hblocks : (blocks.map Block.body).map Block.parse = blocks := by
    rw [List.map_map]
    conv_rhs => rw [← List.map_id blocks]
    exact List.map_congr_left fun b hb => (h b hb).parse_body
  unfold Annotations.parse Annotations.render
  rw [String.toList_ofList, Comments.extract_text h]
  dsimp only
  rw [hblocks]

/-- Blocks with what is easily lost: a star and an empty line in a description, a hyphen in front of
one, a tag without a description, a block without anything. -/
def petBlocks : List Block := [
  { description := "Finds pets.\n\n* Any number."
    tags := [
      { title := "event", description := "GET /pets" },
      { title := "param", name := some "query.tags"
        type := some (.optional (.arrayOf (.union [.name "string", .name "Tag"])))
        description := "- Tags,\n  one of them enough" },
      { title := "returns", type := some (.name "Pet") }] },
  { tags := [] },
  { tags := [{ title := "typedef", name := some "Tag", type := some (.name "Object") }] }]

theorem Tag.isNormal_of_writable {t : Tag} (hw : ∀ e ∈ t.type, e.Writable)
    (h : t.errors = [] ∧ IsWord t.title.toList ∧ (t.type.isSome → t.title ∈ typedTitles) ∧
      (t.name.isSome ↔ t.title ∈ namedTitles) ∧
      (∀ n ∈ t.name, IsWord n.toList ∧ n ≠ "" ∧
        n.toList.head? ≠ some '[' ∧ n.toList.head? ≠ some '{') ∧
      IsProse t.description.toList ∧
      ∀ l ∈ (lines t.description.toList).tail, opensTag l = false) : t.IsNormal := by
  obtain ⟨herrors, htitle, htyped, hnamed, hname, hdescription, hlines⟩ := h
  refine ⟨herrors, htitle, ?_, hnamed, fun n hn => (hname n hn).1, fun n hn => (hname n hn).2.1,
    fun n hn => (hname n hn).2.2, hdescription, hlines⟩
  intro e he
  exact ⟨htyped (Option.isSome_of_mem he), TypeExpr.exists_parse_eq_ok_iff_writable.2 (hw e he)⟩

theorem petBlocks_isNormal : ∀ b ∈ petBlocks, b.IsNormal := by
  have hname : ∀ n ∈ ["string", "Tag", "Pet", "Object"], TypeExpr.Writable (.name n) := by
    have hletters : ∀ n ∈ ["string", "Tag", "Pet", "Object"],
        n.toList.head?.any TypeExpr.isNameStart ∧ n.toList.all TypeExpr.isNamePart := by
      decide +kernel
    intro n hn
    exact .name (TypeExpr.isName_of_all (hletters n hn).1 (hletters n hn).2)
  have htags : TypeExpr.Writable (.optional (.arrayOf (.union [.name "string", .name "Tag"]))) := by
    refine .optional (.arrayOf (.union (by decide) ?_))
    simp [hname]
  intro b hb
  simp only [petBlocks, List.mem_cons, List.not_mem_nil, or_false] at hb
  rcases hb with rfl | rfl | rfl
  · refine ⟨by decide +kernel, by decide +kernel, ?_⟩
    intro t ht
    simp only [List.mem_cons, List.not_mem_nil, or_false] at ht
    rcases ht with rfl | rfl | rfl
    · exact Tag.isNormal_of_writable (by simp) (by decide +kernel)
    · exact Tag.isNormal_of_writable (by simpa using htags) (by decide +kernel)
    · exact Tag.isNormal_of_writable (by simp [hname]) (by decide +kernel)
  · exact ⟨by decide +kernel, by decide +kernel, by simp⟩
  · refine ⟨by decide +kernel, by decide +kernel, ?_⟩
    intro t ht
    rw [List.mem_singleton.1 ht]
    exact Tag.isNormal_of_writable (by simp [hname]) (by decide +kernel)

theorem Annotations.parse_render_petBlocks : (∀ b ∈ petBlocks, b.IsNormal) ∧
    Annotations.parse (Annotations.render petBlocks) = ⟨petBlocks, false⟩ :=
  ⟨petBlocks_isNormal, parse_render petBlocks petBlocks_isNormal⟩

end AnnotatedApi
