/-! # Range of decimal numerals

Whether a decimal numeral is small enough for a binary number of 64 bits with 53 bits of precision.
Such a number overflows from halfway between the largest one and the next power of two. -/

namespace LayeredSql.Numeral

/-- The least value that rounds to infinity. -/
def overflow : Nat := Nat.pow 2 1024 - Nat.pow 2 970

/-- The nearest number with at most 53 significant bits; of two, the one with an even last bit. -/
def round53 (n : Nat) : Nat :=
  if n < Nat.pow 2 53 then n
  else
    let unit := Nat.pow 2 (n.log2 - 52)
    let low := n / unit
    let twice := 2 * (n % unit)
    if unit < twice ∨ (twice = unit ∧ low % 2 = 1) then (low + 1) * unit else low * unit

/-- Digits read into a significand of 64 bits and a power of ten. Once a digit does not fit, the
significand is full: further digits before the point count as powers of ten, and those behind it are
dropped. -/
structure Significand where
  value : Nat
  exponent : Int
  full : Bool

namespace Significand

def zero : Significand := ⟨0, 0, false⟩

def fits (s : Significand) (digit : Nat) : Bool := !s.full && s.value * 10 + digit < Nat.pow 2 64

def integerDigit (s : Significand) (digit : Nat) : Significand :=
  if s.fits digit then { s with value := s.value * 10 + digit }
  else { s with exponent := s.exponent + 1, full := true }

def fractionDigit (s : Significand) (digit : Nat) : Significand :=
  if s.fits digit then { s with value := s.value * 10 + digit, exponent := s.exponent - 1 }
  else { s with full := true }

end Significand

def digitValue (c : Char) : Nat := c.toNat - '0'.toNat

def digitsValue (cs : List Char) : Nat := cs.foldl (fun n c => n * 10 + digitValue c) 0

/-- Whether the product of the rounded significand and the rounded power of ten is finite. -/
def productInRange (value : Nat) (exponent : Int) : Bool :=
  match exponent with
  | .ofNat e => value = 0 || (e ≤ 308 && round53 value * round53 (Nat.pow 10 e) < overflow)
  | .negSucc _ => true

/-- Range check of a numeral given by its digits before the point, behind it, and its exponent. -/
def inProductRange (integer fraction : List Char) (exponent : Int) : Bool :=
  let whole := integer.foldl (fun s c => s.integerDigit (digitValue c)) Significand.zero
  let all := fraction.foldl (fun s c => s.fractionDigit (digitValue c))
    { whole with full := false }
  productInRange all.value (all.exponent + exponent)

/-- Whether the exact value of the numeral rounds to a finite number. -/
def inExactRange (integer fraction : List Char) (exponent : Int) : Bool :=
  let digits := integer ++ fraction
  let value := digitsValue digits
  let scale := exponent - fraction.length
  if value = 0 then true
  else if (digits.length : Int) + scale ≤ 300 then true
  else if 400 < scale then false
  else match scale with
    | .ofNat e => value * Nat.pow 10 e < overflow
    | .negSucc e => value < overflow * Nat.pow 10 (e + 1)

end LayeredSql.Numeral
