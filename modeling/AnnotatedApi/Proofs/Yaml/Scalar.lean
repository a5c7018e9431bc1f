import AnnotatedApi.Number.Basic
import AnnotatedApi.Yaml.Style

/-! What the plain scalars of written values stand for. Main statement: the decimal digits of an integer
of 64 bits stand for that integer. -/
namespace AnnotatedApi.Yaml

open Json

section

variable {b : Nat} {f : Char → Char}

private theorem filter_digitValue? (hf : ∀ d < b, digitValue? (f d.digitChar) = some d) {d : Nat}
    (hd : d < b) : (digitValue? (f d.digitChar)).filter (· < b) = some d := by
  rw [hf d hd, Option.filter_some]
  simp [hd]

theorem exists_mapM_toDigits (hb : 1 < b) (hf : ∀ d < b, digitValue? (f d.digitChar) = some d)
    (n : Nat) :
    ∃ ds, ((Nat.toDigits b n).map f).mapM (fun c => (digitValue? c).filter (· < b)) = some ds ∧
      ds ≠ [] ∧ ds.foldl (b * · + ·) 0 = n := by
  induction n using Nat.strongRecOn with
  | ind n ih =>
    by_cases hn : n < b
    · refine ⟨[n], ?_, by simp⟩
      simp [Nat.toDigits_of_lt_base hn, List.mapM_cons, filter_digitValue? hf hn]
    · have hlast : n % b < b := Nat.mod_lt _ (by omega)
      obtain ⟨ds, hds, -, hfold⟩ := ih (n / b) (Nat.div_lt_self (by omega) hb)
      refine ⟨ds ++ [n % b], ?_, by simp, ?_⟩
      · simp [Nat.toDigits_of_base_le hb (Nat.le_of_not_lt hn), List.mapM_append, hds, List.mapM_cons,
          filter_digitValue? hf hlast]
      · simp [hfold, Nat.div_add_mod]

private theorem mapM_replicate_zero (hb : 1 < b) (k : Nat) :
    (List.replicate k '0').mapM (fun c => (digitValue? c).filter (· < b)) =
      some (List.replicate k 0) := by
  have h0 : (digitValue? '0').filter (· < b) = some 0 := by
    rw [(by decide : digitValue? '0' = some 0), Option.filter_some]
    simp [Nat.lt_of_succ_lt hb]
  induction k with
  | zero => rfl
  | succ k ih => simp [List.replicate_succ, List.mapM_cons, ih, h0]

private theorem foldl_replicate_zero (b k : Nat) : (List.replicate k 0).foldl (b * · + ·) 0 = 0 := by
  induction k with
  | zero => rfl
  | succ k ih => simpa [List.replicate_succ] using ih

/-- Digits stand for the number that they are digits of, also behind zeros. -/
theorem ofDigits?_replicate_append (hb : 1 < b) (hf : ∀ d < b, digitValue? (f d.digitChar) = some d)
    (k n : Nat) :
    ofDigits? b (List.replicate k '0' ++ (Nat.toDigits b n).map f) = some n := by
  obtain ⟨ds, hds, hne, hfold⟩ := exists_mapM_toDigits hb hf n
  rw [ofDigits?, List.mapM_append, mapM_replicate_zero hb, hds]
  simp [hne, foldl_replicate_zero, hfold]

end

theorem ofDigits?_ten_toDigits (n : Nat) : ofDigits? 10 (Nat.toDigits 10 n) = some n := by
  have h := ofDigits?_replicate_append (f := id) (by decide : 1 < 10) (by decide) 0 n
  simpa using h

theorem eq_nil_of_toDigits_eq_cons {n : Nat} {cs : List Char} (h : Nat.toDigits 10 n = '0' :: cs) :
    cs = [] := by
  have hn : n = 0 := Number.eq_zero_of_head?_toDigits (by simp [h])
  rw [hn, Nat.toDigits_zero] at h
  simpa using h.symm

theorem sign_toDigits (n : Nat) : sign (Nat.toDigits 10 n) = (false, Nat.toDigits 10 n) := by
  obtain ⟨c, cs, h, hc⟩ := Number.exists_toDigits_eq_cons n
  rw [h]
  unfold sign
  split
  · simp_all [Char.isDigit]
  · simp_all [Char.isDigit]
  · rfl

theorem magnitude?_toDigits (n : Nat) : magnitude? (Nat.toDigits 10 n) = some n := by
  unfold magnitude?
  split
  · rename_i h
    simpa using eq_nil_of_toDigits_eq_cons h
  · rename_i h
    simpa using eq_nil_of_toDigits_eq_cons h
  · rename_i h
    simpa using eq_nil_of_toDigits_eq_cons h
  · exact ofDigits?_ten_toDigits n

theorem isPadded_of_sign_eq {cs : List Char} {n : Nat} (h : (sign cs).2 = Nat.toDigits 10 n) :
    isPadded cs = false := by
  unfold isPadded
  rw [h]
  split
  · rename_i h
    simpa using eq_nil_of_toDigits_eq_cons h
  · rfl

theorem int?_toText (layout : Number.Double.Layout) (w : Word) :
    int? ((Number.word w).toText layout).toList = some w.val := by
  have hrange := w.inRange
  rw [Number.toList_toText_word]
  by_cases hw : w.val < 0
  · have hsign : sign (['-'] ++ Nat.toDigits 10 w.val.natAbs) =
        (true, Nat.toDigits 10 w.val.natAbs) := rfl
    have hpad := isPadded_of_sign_eq (congrArg Prod.snd hsign)
    have hle : w.val.natAbs ≤ Nat.pow 2 127 :=
      Nat.le_trans (by omega : _ ≤ 0x8000000000000000) (by decide)
    have hval : -(w.val.natAbs : Int) = w.val := by omega
    rw [if_pos hw]
    simp only [int?, hsign, hpad, magnitude?_toDigits, Bool.false_eq_true, if_false, if_true, if_pos hle,
      hval, Option.bind_eq_bind, Option.bind_some]
  · have hsign := sign_toDigits w.val.natAbs
    have hpad := isPadded_of_sign_eq (congrArg Prod.snd hsign)
    have hlt : w.val.natAbs < Nat.pow 2 128 :=
      Nat.lt_of_lt_of_le (by omega : _ < 0x10000000000000000) (by decide)
    have hval : (w.val.natAbs : Int) = w.val := by omega
    rw [if_neg hw, List.nil_append]
    simp only [int?, hsign, hpad, magnitude?_toDigits, Bool.false_eq_true, if_false, if_pos hlt, hval,
      Option.bind_eq_bind, Option.bind_some]

private theorem isDigit_of_mem_words :
    (nullWords ++ ["true", "True", "TRUE"] ++ ["false", "False", "FALSE"]).all
      (fun s => s.toList.all (!·.isDigit)) := by decide

theorem resolve_toText (layout : Number.Double.Layout) (w : Word) :
    resolve ((Number.word w).toText layout) = .int w.val := by
  obtain ⟨c, cs, h, hc⟩ := Number.exists_toDigits_eq_cons w.val.natAbs
  have hmem : c ∈ ((Number.word w).toText layout).toList := by
    simp [Number.toList_toText_word, h]
  have hword {s : String} (hs : s ∈ nullWords ++ ["true", "True", "TRUE"] ++
      ["false", "False", "FALSE"]) : (Number.word w).toText layout ≠ s := by
    rintro rfl
    have := List.all_eq_true.1 (List.all_eq_true.1 isDigit_of_mem_words _ hs) c hmem
    simp [hc] at this
  rw [resolve, if_neg fun h => hword (List.mem_append_left _ (List.mem_append_left _ h)) rfl,
    if_neg fun h => hword (List.mem_append_left _ (List.mem_append_right _ h)) rfl,
    if_neg fun h => hword (List.mem_append_right _ h) rfl, int?_toText]

end AnnotatedApi.Yaml
