/-! Characters by ranges of code points, white space and trimming, and cutting a text: at a fixed pattern
and at line ends. A blank is one of the 25 characters with the property White_Space. -/
namespace AnnotatedApi.Text

/-- Closed ranges of code points. -/
abbrev Ranges := List (Nat × Nat)

def Ranges.contains (rs : Ranges) (c : Char) : Bool :=
  rs.any fun r => r.1 ≤ c.toNat && c.toNat ≤ r.2

def blankRanges : Ranges :=
  [(0x9, 0xD), (0x20, 0x20), (0x85, 0x85), (0xA0, 0xA0), (0x1680, 0x1680), (0x2000, 0x200A),
   (0x2028, 0x2029), (0x202F, 0x202F), (0x205F, 0x205F), (0x3000, 0x3000)]

def isBlank (c : Char) : Bool := blankRanges.contains c

def trimStart (cs : List Char) : List Char := cs.dropWhile isBlank

def trimEnd (cs : List Char) : List Char := (cs.reverse.dropWhile isBlank).reverse

def trim (cs : List Char) : List Char := trimEnd (trimStart cs)

theorem trimStart_suffix (cs : List Char) : trimStart cs <:+ cs := List.dropWhile_suffix _

theorem length_trimStart_le (cs : List Char) : (trimStart cs).length ≤ cs.length :=
  (trimStart_suffix cs).length_le

/-- Cuts a text at the first place where `pattern` stands, into what comes before and after it. -/
def cut? (pattern : List Char) : List Char → Option (List Char × List Char)
  | [] => if pattern.isEmpty then some ([], []) else none
  | c :: cs =>
    if pattern <+: c :: cs then some ([], (c :: cs).drop pattern.length)
    else (cut? pattern cs).map fun (before, rest) => (c :: before, rest)

theorem length_lt_of_cut? {p : Char} {ps text before rest : List Char}
    (h : cut? (p :: ps) text = some (before, rest)) : rest.length < text.length := by
  induction text generalizing before with
  | nil => cases h
  | cons c cs ih =>
    unfold cut? at h
    split at h
    next =>
      cases h
      simp only [List.length_drop, List.length_cons]
      omega
    next =>
      obtain ⟨⟨b, r⟩, hb, hr⟩ := Option.map_eq_some_iff.1 h
      cases hr
      exact Nat.lt_succ_of_lt (ih hb)

/-- A line without the CR that stood right before its line end. -/
def dropReturn (line : List Char) : List Char :=
  if line.getLast? = some '\r' then line.dropLast else line

/-- The lines of a text. A line ends with LF, or with CR and LF; what stands after the last line end
is a line of its own unless it is empty, and keeps a final CR. -/
def lines (text : List Char) : List (List Char) :=
  let parts := text.splitOn '\n'
  parts.dropLast.map dropReturn ++ parts.getLast?.toList.filter (!·.isEmpty)

def joinWith (separator : Char) (parts : List (List Char)) : List Char :=
  [separator].intercalate parts

end AnnotatedApi.Text
