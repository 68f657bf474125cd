import LayeredSql.Text.Basic

/-! # Blank characters

The characters that count as white space around a text, and trimming. A text is blank when it holds
nothing else; trimming such a text leaves nothing. -/

namespace LayeredSql.Text

/-- The Unicode property `White_Space`. -/
def blankRanges : List (Nat × Nat) :=
  [(0x09, 0x0D), (0x20, 0x20), (0x85, 0x85), (0xA0, 0xA0), (0x1680, 0x1680), (0x2000, 0x200A),
    (0x2028, 0x2029), (0x202F, 0x202F), (0x205F, 0x205F), (0x3000, 0x3000)]

def isBlank (c : Char) : Bool := inRanges blankRanges c

/-- The characters left after dropping blanks from both ends. -/
def trimChars (cs : List Char) : List Char :=
  ((cs.dropWhile isBlank).reverse.dropWhile isBlank).reverse

def trim (s : String) : String := String.ofList (trimChars s.toList)

def isBlankText (s : String) : Bool := s.toList.all isBlank

@[simp] theorem toList_trim (s : String) : (trim s).toList = trimChars s.toList := by
  simp [trim]

/-- A text is its trimmed form between two blank ends. -/
theorem trimChars_decompose (cs : List Char) :
    ∃ front back, cs = front ++ trimChars cs ++ back ∧
      front.all isBlank ∧ back.all isBlank := by
  refine ⟨cs.takeWhile isBlank, ((cs.dropWhile isBlank).reverse.takeWhile isBlank).reverse,
    ?_, ?_, ?_⟩
  · rw [trimChars, List.append_assoc, ← List.reverse_append, List.takeWhile_append_dropWhile,
      List.reverse_reverse, List.takeWhile_append_dropWhile]
  · simp [List.all_takeWhile]
  · rw [List.all_reverse]
    simp [List.all_takeWhile]

end LayeredSql.Text
