import AnnotatedApi.Proofs.TypeExpr.Printing
import Mathlib.Data.List.Forall2

/-! Several ways to write one type. A text that is read as a type on its own is read as the same type where
a closing sign follows it, with whatever blanks and suffixes it ends. Main statement: parentheses change
nothing, the three ways to write an array agree, and arguments are read one by one. -/
namespace AnnotatedApi.TypeExpr

open Text Grammar

theorem Grammar.Whole.parentheses {s : List Char} {t : TypeExpr} (h : Whole true s t) :
    Atom true ('(' :: (s ++ [')'])) t := by
  obtain ⟨ha, hw⟩ := h
  rw [List.append_assoc]
  exact .parentheses ha hw

theorem Grammar.arguments_of_wholes {sources : List (List Char)} {ts : List TypeExpr}
    (h : List.Forall₂ (Whole true) sources ts) (hne : sources ≠ []) :
    Arguments true ([','].intercalate sources ++ ['>']) ts := by
  induction h with
  | nil => contradiction
  | cons hs hrest ih =>
    obtain ⟨ha, hw⟩ := hs
    cases hrest with
    | nil =>
      rw [List.intercalate_singleton, List.append_assoc]
      exact .last ha hw
    | cons =>
      rw [List.intercalate_cons_cons]
      simp only [List.append_assoc, List.singleton_append]
      exact .cons ha hw (ih (List.cons_ne_nil _ _))

theorem Grammar.Atom.parseChars_append {u v : List Char} {t t' : TypeExpr} (h : Atom true u t)
    (hv : Arrays t v t') : parseChars (u ++ v) = .ok t' := by
  have hs : Suffixed true (u ++ v) t' false := .bare (.atom .nil h) hv fun _ => .inl rfl
  rw [parseChars_eq_ok_iff, ← List.append_nil (u ++ v)]
  exact .mk hs.alternation .nil

theorem IsName.parseChars_apply {n o : List Char} {sources : List (List Char)} {ts : List TypeExpr}
    (hn : IsName n) (ho : Opening o) (hne : sources ≠ [])
    (h : List.Forall₂ (fun s t => parseChars s = .ok t) sources ts) :
    parseChars (n ++ (o ++ ([','].intercalate sources ++ ['>']))) =
      .ok (.apply (.name (String.ofList n)) ts) := by
  obtain ⟨c, cs, rfl, hc, hcs⟩ := hn
  have hv := arguments_of_wholes (h.imp fun _ _ => parseChars_eq_ok_iff.1) hne
  have ha := (Atom.apply hc hcs .nil ho hv).parseChars_append .nil
  rwa [List.append_nil] at ha

/-- What is read alone is read the same way in parentheses and as the argument of a container, and `[]`
behind the parentheses is the container `Array`. -/
theorem parse_spellings :
    (∀ source t, parse source = .ok t →
      parse ("(" ++ source ++ ")") = .ok t ∧
        parse ("Array<" ++ source ++ ">") = .ok (arrayOf t) ∧
        parse ("Array.<" ++ source ++ ">") = .ok (arrayOf t) ∧
        parse ("(" ++ source ++ ")[]") = .ok (arrayOf t)) ∧
      ∀ (n : String) sources ts, IsName n.toList → sources ≠ [] →
        List.Forall₂ (fun source t => parse source = .ok t) sources ts →
          parse (n ++ "<" ++ ",".intercalate sources ++ ">") = .ok (apply (name n) ts) := by
  constructor
  · intro source t h
    have hparentheses := (parseChars_eq_ok_iff.1 h).parentheses
    have hargument : List.Forall₂ (fun s t => parseChars s = .ok t) [source.toList] [t] := .cons h .nil
    have harray : ∀ {o}, Opening o → _ := fun ho =>
      isName_Array.parseChars_apply ho (List.cons_ne_nil _ _) hargument
    refine ⟨?_, ?_, ?_, ?_⟩
    · simpa [parse] using hparentheses.parseChars_append .nil
    · simpa [parse, arrayOf] using harray .angle
    · simpa [parse, arrayOf] using harray .point
    · simpa [parse] using hparentheses.parseChars_append (.cons .nil .nil)
  · intro n sources ts hn hne h
    have hsources : List.Forall₂ (fun s t => parseChars s = .ok t) (sources.map String.toList) ts :=
      List.forall₂_map_left_iff.2 h
    simpa [parse] using hn.parseChars_apply .angle (by simpa using hne) hsources

/-- An argument that ends with a mark and a blank, and one that ends with arguments of its own. -/
theorem parse_spellings_map :
    (parse "?Key[]= " = .ok (nullable (optional (arrayOf (name "Key")))) ∧
      parse "(?Key[]= )[]" = .ok (arrayOf (nullable (optional (arrayOf (name "Key")))))) ∧
    parse "Map<?Key[]= ,Array<*>>" = .ok (apply (name "Map")
      [nullable (optional (arrayOf (name "Key"))), arrayOf any]) := by
  have hname : Marked true "Key".toList (name "Key") true :=
    .atom .nil (.name (by decide +kernel) (nameTail_of_all (by decide +kernel)))
  have hmarked : Marked true "?Key[]=".toList (nullable (optional (arrayOf (name "Key")))) true :=
    .nullable .nil (.optional hname (.cons .nil .nil) .nil fun _ => rfl)
  have hkey : parse "?Key[]= " = .ok (nullable (optional (arrayOf (name "Key")))) :=
    parseChars_eq_ok_iff.2 (.mk hmarked.suffixed.alternation blanks_space)
  have hany : parse "*" = .ok any := Atom.any.parseChars_append .nil
  have hmap : IsName "Map".toList := isName_of_all (by decide +kernel) (by decide +kernel)
  obtain ⟨hone, hmany⟩ := parse_spellings
  obtain ⟨-, -, -, hkeys⟩ := hone _ _ hkey
  obtain ⟨-, hanys, -⟩ := hone _ _ hany
  have hentries := hmany "Map" _ _ hmap (List.cons_ne_nil _ _) (.cons hkey (.cons hanys .nil))
  have hkeysText : "(" ++ "?Key[]= " ++ ")[]" = "(?Key[]= )[]" := by decide +kernel
  have hentriesText : "Map" ++ "<" ++ ",".intercalate ["?Key[]= ", "Array<" ++ "*" ++ ">"] ++ ">" =
      "Map<?Key[]= ,Array<*>>" := by decide +kernel
  rw [hkeysText] at hkeys
  rw [hentriesText] at hentries
  exact ⟨⟨hkey, hkeys⟩, hentries⟩

end AnnotatedApi.TypeExpr
