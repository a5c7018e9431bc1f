/-! The bytes of a text. Main statement: texts that are in order by their characters are in order by their
bytes. -/
namespace AnnotatedApi.Text

def bytes (s : String) : List UInt8 := s.toUTF8.data.toList

private theorem bytes_eq_flatMap (s : String) : bytes s = s.toList.flatMap String.utf8EncodeChar := by
  have h : s.toByteArray = s.toList.utf8Encode := by
    rw [← String.toByteArray_ofList, String.ofList_toList]
  rw [bytes, String.toUTF8, h, List.utf8Encode, List.toList_data_toByteArray]

theorem cons_ofNat_lt {a b : Nat} (ha : a < 256) (hb : b < 256) (h : a < b) (x y : List UInt8) :
    UInt8.ofNat a :: x < UInt8.ofNat b :: y := by
  rw [List.cons_lt_cons_iff, UInt8.lt_iff_toNat_lt, UInt8.toNat_ofNat', UInt8.toNat_ofNat']
  omega

/-- The code of a number: a first byte that starts at `lead`, and `n` bytes of six bits each. -/
def code (lead : Nat) : (n v : Nat) → List UInt8
  | 0, v => [UInt8.ofNat (v + lead)]
  | n + 1, v => code lead n (v / 64) ++ [UInt8.ofNat (v % 64 + 128)]

def leading : (n v : Nat) → Nat
  | 0, v => v
  | n + 1, v => leading n (v / 64)

theorem exists_code_eq_cons (lead n v : Nat) :
    ∃ tail, code lead n v = UInt8.ofNat (leading n v + lead) :: tail := by
  induction n generalizing v with
  | zero => exact ⟨[], rfl⟩
  | succ n ih =>
    obtain ⟨tail, htail⟩ := ih (v / 64)
    exact ⟨tail ++ [UInt8.ofNat (v % 64 + 128)], by simp [code, htail, leading]⟩

/-- Codes of one length are in the order of the numbers, whatever follows them. -/
theorem code_append_lt {lead n v w : Nat} (hw : leading n w + lead < 256) (h : v < w)
    (x y : List UInt8) : code lead n v ++ x < code lead n w ++ y := by
  induction n generalizing v w x y with
  | zero =>
    have hw : w + lead < 256 := hw
    exact cons_ofNat_lt (by omega) hw (by omega) x y
  | succ n ih =>
    simp only [code, List.append_assoc, List.singleton_append]
    by_cases hhigh : v / 64 = w / 64
    · rw [hhigh]
      exact List.append_left_lt (cons_ofNat_lt (by omega) (by omega) (by omega) x y)
    · exact ih hw (by omega) _ _

/-- How many bytes follow the first one in the code of a character. -/
def extraOf (v : Nat) : Nat := if v ≤ 127 then 0 else if v ≤ 2047 then 1 else if v ≤ 65535 then 2 else 3

/-- Where the first byte starts, by the number of bytes that follow it. -/
def leadOf (n : Nat) : Nat :=
  if n = 0 then 0 else if n = 1 then 192 else if n = 2 then 224 else if n = 3 then 240 else 248

private theorem leadOf_mono {n m : Nat} (h : n ≤ m) : leadOf n ≤ leadOf m := by grind [leadOf]

private theorem leadOf_le (n : Nat) : leadOf n ≤ 248 := by grind [leadOf]

private theorem extraOf_mono {v w : Nat} (h : v ≤ w) : extraOf v ≤ extraOf w := by grind [extraOf]

/-- Codes of different lengths have their first bytes in different ranges. -/
private theorem leading_add_leadOf_lt {v : Nat} (hv : v < 1114112) :
    leading (extraOf v) v + leadOf (extraOf v) < leadOf (extraOf v + 1) := by
  unfold extraOf
  split
  · have hleading : leading 0 v = v := rfl
    have hlead : leadOf 0 = 0 ∧ leadOf (0 + 1) = 192 := by decide
    omega
  · split
    · have hleading : leading 1 v = v / 64 := rfl
      have hlead : leadOf 1 = 192 ∧ leadOf (1 + 1) = 224 := by decide
      omega
    · split
      · have hleading : leading 2 v = v / 64 / 64 := rfl
        have hlead : leadOf 2 = 224 ∧ leadOf (2 + 1) = 240 := by decide
        omega
      · have hleading : leading 3 v = v / 64 / 64 / 64 := rfl
        have hlead : leadOf 3 = 240 ∧ leadOf (3 + 1) = 248 := by decide
        omega

theorem toNat_lt (c : Char) : c.toNat < 1114112 := by
  have h := c.valid
  simp only [UInt32.isValidChar, Nat.isValidChar] at h
  have hval : c.toNat = c.val.toNat := rfl
  omega

theorem utf8EncodeChar_eq_code (c : Char) :
    String.utf8EncodeChar c = code (leadOf (extraOf c.toNat)) (extraOf c.toNat) c.toNat := by
  have hv := toNat_lt c
  have hval : c.val.toNat = c.toNat := rfl
  simp only [String.utf8EncodeChar, hval, extraOf]
  generalize c.toNat = v at hv
  split
  · rfl
  · split
    · simp [code, leadOf, Nat.mod_eq_of_lt (show v / 64 < 32 by omega)]
    · split
      · simp [code, leadOf, Nat.div_div_eq_div_mul, Nat.mod_eq_of_lt (show v / 4096 < 16 by omega)]
      · simp [code, leadOf, Nat.div_div_eq_div_mul, Nat.mod_eq_of_lt (show v / 262144 < 8 by omega)]

theorem utf8EncodeChar_append_lt {c d : Char} (h : c < d) (x y : List UInt8) :
    String.utf8EncodeChar c ++ x < String.utf8EncodeChar d ++ y := by
  have hlt : c.toNat < d.toNat := h
  have hc := leading_add_leadOf_lt (toNat_lt c)
  have hd := leading_add_leadOf_lt (toNat_lt d)
  have hdmax := leadOf_le (extraOf d.toNat + 1)
  rw [utf8EncodeChar_eq_code, utf8EncodeChar_eq_code]
  rcases Nat.eq_or_lt_of_le (extraOf_mono (Nat.le_of_lt hlt)) with hsame | hshort
  · rw [hsame]
    exact code_append_lt (by omega) hlt x y
  · -- The first bytes decide, because the codes have different lengths.
    have hmono := leadOf_mono (show extraOf c.toNat + 1 ≤ extraOf d.toNat from hshort)
    obtain ⟨s, hs⟩ := exists_code_eq_cons (leadOf (extraOf c.toNat)) (extraOf c.toNat) c.toNat
    obtain ⟨t, ht⟩ := exists_code_eq_cons (leadOf (extraOf d.toNat)) (extraOf d.toNat) d.toNat
    rw [hs, ht, List.cons_append, List.cons_append]
    exact cons_ofNat_lt (by omega) (by omega) (by omega) _ _

theorem flatMap_utf8EncodeChar_lt {cs ds : List Char} (h : cs < ds) :
    cs.flatMap String.utf8EncodeChar < ds.flatMap String.utf8EncodeChar := by
  induction cs generalizing ds with
  | nil =>
    cases ds with
    | nil => cases h
    | cons d ds =>
      obtain ⟨t, ht⟩ := exists_code_eq_cons (leadOf (extraOf d.toNat)) (extraOf d.toNat) d.toNat
      rw [List.flatMap_cons, utf8EncodeChar_eq_code, ht]
      exact List.nil_lt_cons _ _
  | cons c cs ih =>
    cases ds with
    | nil => cases h
    | cons d ds =>
      rw [List.flatMap_cons, List.flatMap_cons]
      rcases List.cons_lt_cons_iff.1 h with hlt | ⟨rfl, hlt⟩
      · exact utf8EncodeChar_append_lt hlt _ _
      · exact List.append_left_lt (ih hlt)

/-- The order of texts by characters is their order by bytes. -/
theorem bytes_lt_of_lt {s t : String} (h : s < t) : bytes s < bytes t := by
  rw [bytes_eq_flatMap, bytes_eq_flatMap]
  exact flatMap_utf8EncodeChar_lt (String.lt_iff.1 h)

end AnnotatedApi.Text
