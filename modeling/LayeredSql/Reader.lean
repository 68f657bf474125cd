/-! # Reading a text from the front

A reader takes something off the front of a text and gives back what is left, which is shorter than
what it was given. Loops of readers therefore end. -/

namespace LayeredSql

/-- What is left of a text once something was taken off its front. -/
abbrev Shorter (cs : List Char) := { rest : List Char // rest.length < cs.length }

namespace Shorter

/-- What stands behind the first character. -/
def tail (c : Char) (cs : List Char) : Shorter (c :: cs) := ⟨cs, Nat.lt_succ_self _⟩

/-- What is left of a text is also what is left of the text with a character in front. -/
def behind (c : Char) {cs : List Char} (rest : Shorter cs) : Shorter (c :: cs) :=
  ⟨rest.1, Nat.lt_succ_of_lt rest.2⟩

/-- What is left of what was left. -/
def trans {cs : List Char} (rest : Shorter cs) (last : Shorter rest.1) : Shorter cs :=
  ⟨last.1, Nat.lt_trans last.2 rest.2⟩

end Shorter

abbrev Reader (α : Type) := (cs : List Char) → Option (α × Shorter cs)

namespace Reader

/-- Takes the first `n` characters when the text holds that many and `n` is not zero. -/
def takeChars (n : Nat) : Reader (List Char) := fun cs =>
  if h : 0 < n ∧ n ≤ cs.length then
    some (cs.take n, ⟨cs.drop n, by rw [List.length_drop]; omega⟩)
  else none

/-- Reads as long as `read` gives a value. It stops for good where `read` gives `none` inside its
result. -/
def untilNone {α : Type} (read : Reader (Option α)) (cs : List Char) :
    Option (List α × Shorter cs) :=
  match read cs with
  | none => none
  | some (none, rest) => some ([], rest)
  | some (some a, rest) =>
    match untilNone read rest.1 with
    | none => none
    | some (more, last) => some (a :: more, rest.trans last)
termination_by cs.length
decreasing_by exact rest.2

/-- How a bracketed list is written: what may be passed over between its parts, how it ends, and
whether a comma may stand behind the last item. -/
structure Brackets where
  skip : List Char → List Char
  skip_le : ∀ cs, (skip cs).length ≤ cs.length
  close : Char
  trailing : Bool

namespace Brackets

/-- Reads items up to the closing bracket, at least one. -/
def items {α : Type} (b : Brackets) (item : Reader α) (cs : List Char) :
    Option (List α × Shorter cs) :=
  match item (b.skip cs) with
  | none => none
  | some (a, rest) =>
    have short : rest.1.length < cs.length := Nat.lt_of_lt_of_le rest.2 (b.skip_le cs)
    match h : b.skip rest.1 with
    | [] => none
    | c :: more =>
      have shorter : more.length + 1 < cs.length := by
        have := b.skip_le rest.1
        rw [h, List.length_cons] at this
        omega
      if c = b.close then some ([a], ⟨more, by omega⟩)
      else if c = ',' then
        match h' : b.skip more with
        | [] => none
        | c' :: last =>
          have ends : last.length + 1 ≤ more.length := by
            have := b.skip_le more
            rwa [h', List.length_cons] at this
          if c' = b.close ∧ b.trailing then some ([a], ⟨last, by omega⟩)
          else
            match items b item more with
            | none => none
            | some (as, final) => some (a :: as, ⟨final.1, by have := final.2; omega⟩)
      else none
termination_by cs.length

/-- Reads what stands behind an opening bracket: items and commas up to the closing one. -/
def list {α : Type} (b : Brackets) (item : Reader α) : Reader (List α) := fun cs =>
  match h : b.skip cs with
  | c :: rest =>
    if c = b.close then
      some ([], ⟨rest, by
        have := b.skip_le cs
        rw [h, List.length_cons] at this
        omega⟩)
    else items b item cs
  | [] => none

end Brackets

end Reader

end LayeredSql
