namespace SqlTree

/-- Membership in a union of closed ranges of code points. -/
def inRanges (ranges : List (Nat × Nat)) (code : Nat) : Bool :=
  ranges.any fun range => range.1 ≤ code && code ≤ range.2

theorem inRanges_iff {ranges : List (Nat × Nat)} {code : Nat} :
    inRanges ranges code ↔ ∃ range ∈ ranges, range.1 ≤ code ∧ code ≤ range.2 := by
  simp [inRanges]

/-- Ranges of the Unicode property White_Space. -/
def whiteSpaceRanges : List (Nat × Nat) :=
  [(0x09, 0x0D), (0x20, 0x20), (0x85, 0x85), (0xA0, 0xA0), (0x1680, 0x1680), (0x2000, 0x200A),
    (0x2028, 0x2029), (0x202F, 0x202F), (0x205F, 0x205F), (0x3000, 0x3000)]

/-- The Unicode property White_Space. -/
def isWhiteSpace (c : Char) : Bool :=
  inRanges whiteSpaceRanges c.toNat

/-- A text of white space only, the empty text included. -/
def isBlank (text : String) : Bool :=
  text.toList.all isWhiteSpace

/-- Capital letters for the letters a to z; every other character stays. -/
def upperCase (text : String) : String :=
  String.ofList (text.toList.map Char.toUpper)

/-- Small letters for the letters A to Z; every other character stays. -/
def lowerCase (text : String) : String :=
  String.ofList (text.toList.map Char.toLower)

/-- Equality of words up to the case of the letters a to z. -/
def sameWord (a b : String) : Bool :=
  a.toList.map Char.toLower == b.toList.map Char.toLower

theorem sameWord_iff {a b : String} : sameWord a b ↔ lowerCase a = lowerCase b := by
  simp [sameWord, lowerCase, String.ofList_inj]

end SqlTree
