import BlockScript.Text.Range

/-! # White space

The Unicode property White_Space: what trimming removes and what a blank line may hold. -/

namespace BlockScript.Text

def blankRanges : List (Nat × Nat) :=
  [(0x9, 0xD), (0x20, 0x20), (0x85, 0x85), (0xA0, 0xA0), (0x1680, 0x1680), (0x2000, 0x200A),
    (0x2028, 0x2029), (0x202F, 0x202F), (0x205F, 0x205F), (0x3000, 0x3000)]

def isBlank (c : Char) : Bool := inRanges blankRanges c

/-- Without the white space in front. -/
def trimStart (cs : List Char) : List Char := cs.dropWhile isBlank

/-- Without the white space at the end. -/
def trimEnd (cs : List Char) : List Char := (cs.reverse.dropWhile isBlank).reverse

/-- Without the white space at both ends. -/
def trim (cs : List Char) : List Char := trimEnd (trimStart cs)

/-- White space among the first 128 code points. -/
theorem isBlank_iff_of_ascii (c : Char) (h : c.toNat < 128) :
    isBlank c = true ↔ 9 ≤ c.toNat ∧ c.toNat ≤ 13 ∨ c.toNat = 32 := by
  rw [isBlank, inRanges_iff]
  simp only [blankRanges, List.mem_cons, List.not_mem_nil, or_false, exists_eq_or_imp,
    exists_eq_left]
  omega

end BlockScript.Text
