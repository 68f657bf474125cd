/-! # Characters and case

Membership in ranges of code points, the control characters, and comparison that ignores the case of
the letters `A` to `Z`. -/

namespace LayeredSql.Text

/-- Whether the code point of `c` lies in one of the closed ranges. -/
def inRanges (ranges : List (Nat × Nat)) (c : Char) : Bool :=
  ranges.any fun r => r.1 ≤ c.toNat && c.toNat ≤ r.2

/-- The control characters: the Unicode category `Cc`. -/
def isControl (c : Char) : Bool := inRanges [(0x00, 0x1F), (0x7F, 0x9F)] c

/-- Both texts agree up to the case of the letters `A` to `Z`. -/
def eqIgnoringAsciiCase (a b : String) : Bool := a.map Char.toLower == b.map Char.toLower

theorem eqIgnoringAsciiCase_iff (a b : String) :
    eqIgnoringAsciiCase a b ↔ a.map Char.toLower = b.map Char.toLower := beq_iff_eq

end LayeredSql.Text
