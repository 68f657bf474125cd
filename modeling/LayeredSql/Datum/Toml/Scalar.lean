import LayeredSql.Datum.Toml.Text

/-! # Unquoted values of TOML

Booleans, integers, floating-point numbers and moments in time, each recognised by its whole
spelling. A number that is well spelled may still be impossible to read: integers have to consist of
digits of their base and fit 64 bits, signed or unsigned, and floating-point numbers have to be
finite unless they say otherwise. -/

namespace LayeredSql.Datum.Toml

open Reader

/-! ### Numbers -/

/-- Digits in groups with single underscores between them, without the underscores. -/
def groupedDigits? (isDigit : Char → Bool) (cs : List Char) : Option (List Char) :=
  let groups := cs.splitOn '_'
  if groups.all fun g => !g.isEmpty && g.all isDigit then some groups.flatten else none

/-- Decimal digits that do not start with a needless zero. -/
def decimalDigits? (cs : List Char) : Option (List Char) :=
  (groupedDigits? Char.isDigit cs).filter fun ds => ds.length = 1 || ds.head? ≠ some '0'

/-- Whether a number starts with a minus sign, and what stands behind its sign. -/
def splitSign : List Char → Bool × List Char
  | '-' :: rest => (true, rest)
  | '+' :: rest => (false, rest)
  | cs => (false, cs)

def isHexDigit (c : Char) : Bool := (Json.hexValue? c).isSome

def isOctalDigit (c : Char) : Bool := '0' ≤ c && c ≤ '7'

def isBinaryDigit (c : Char) : Bool := c = '0' || c = '1'

/-- The number that digits of the given base write. -/
def digitsIn (base : Nat) (cs : List Char) : Nat :=
  cs.foldl (fun n c => n * base + (Json.hexValue? c).getD 0) 0

def isExponentMark (c : Char) : Bool := c = 'e' || c = 'E'

/-- The digits of a decimal integer without its sign. The digits in front of the first underscore
do not start with a needless zero. Behind it other characters may stand as well, apart from those
that a number with a fraction or an exponent has; such an integer is well spelled as long as each
underscore has digits of some base on both sides. -/
def decimalInteger? (cs : List Char) : Option (List Char) :=
  match cs.splitOn '_' with
  | [] => none
  | first :: more =>
    if !first.isEmpty && first.all Char.isDigit && (first.head? ≠ some '0' || cs = ['0']) &&
        more.all (fun g => g.head?.any isHexDigit) &&
        more.dropLast.all (fun g => g.getLast?.any isHexDigit) &&
        !more.any (fun g => g.any fun c => c = '.' || isExponentMark c) then
      some (first ++ more.flatten)
    else none

/-- The base and the digits of an integer without its sign. A base other than ten takes no sign,
and there may be no digits behind its mark. -/
def integerDigits? (signed : Bool) : List Char → Option (Nat × List Char)
  | '0' :: 'x' :: ds => if signed then none else (markedDigits? isHexDigit ds).map (16, ·)
  | '0' :: 'o' :: ds => if signed then none else (markedDigits? isOctalDigit ds).map (8, ·)
  | '0' :: 'b' :: ds => if signed then none else (markedDigits? isBinaryDigit ds).map (2, ·)
  | ds => (decimalInteger? ds).map (10, ·)
where
  markedDigits? (isDigit : Char → Bool) (ds : List Char) : Option (List Char) :=
    if ds.isEmpty then some [] else groupedDigits? isDigit ds

/-- An integer as it is spelled. -/
structure IntegerParts where
  negative : Bool
  base : Nat
  digits : List Char

def integerParts? (cs : List Char) : Option IntegerParts :=
  let (negative, rest) := splitSign cs
  (integerDigits? (rest.length < cs.length) rest).map fun (base, digits) =>
    ⟨negative, base, digits⟩

/-- An integer can be read when it has digits, all of them digits of its base, and fits 64 bits,
signed or unsigned. -/
def IntegerParts.isReadable (p : IntegerParts) : Bool :=
  let n := digitsIn p.base p.digits
  !p.digits.isEmpty && p.digits.all (fun c => (Json.hexValue? c).any (· < p.base)) &&
    if p.negative then n ≤ Nat.pow 2 63 else n < Nat.pow 2 64

/-- The exponent of a number; leading zeros are allowed. -/
def exponent? (cs : List Char) : Option Int :=
  let (negative, rest) := splitSign cs
  (groupedDigits? Char.isDigit rest).map fun ds =>
    let n : Int := Numeral.digitsValue ds
    if negative then -n else n

/-- A number with a fraction or an exponent as it is spelled, without its sign. -/
structure FloatParts where
  integer : List Char
  fraction : List Char
  exponent : Int

def floatParts? (cs : List Char) : Option FloatParts :=
  let rest := (splitSign cs).2
  let mantissa := rest.takeWhile (!isExponentMark ·)
  let integer := mantissa.takeWhile (· ≠ '.')
  let fraction := match mantissa.dropWhile (· ≠ '.') with
    | _ :: ds => groupedDigits? Char.isDigit ds
    | [] => some []
  let exponent := match rest.dropWhile (!isExponentMark ·) with
    | _ :: ds => exponent? ds
    | [] => some 0
  match decimalDigits? integer, fraction, exponent with
  | some i, some f, some e => if integer.length < rest.length then some ⟨i, f, e⟩ else none
  | _, _, _ => none

/-- A number can be read when it rounds to a finite one. -/
def FloatParts.isReadable (p : FloatParts) : Bool :=
  Numeral.inExactRange p.integer p.fraction p.exponent

/-- An infinite or undefined number. -/
def isSpecialFloat (cs : List Char) : Bool :=
  let rest := (splitSign cs).2
  rest = ['i', 'n', 'f'] || rest = ['n', 'a', 'n']

/-- Whether a text is spelled like a number. -/
def isNumber (cs : List Char) : Bool :=
  isSpecialFloat cs || (integerParts? cs).isSome || (floatParts? cs).isSome

/-- Whether a number can be read, apart from its spelling. -/
def isReadableNumber (cs : List Char) : Bool :=
  isSpecialFloat cs || (integerParts? cs).any IntegerParts.isReadable ||
    (floatParts? cs).any FloatParts.isReadable

/-! ### Moments -/

/-- The number that two digits write. -/
def twoDigits? (a b : Char) : Option Nat :=
  if a.isDigit ∧ b.isDigit then some (Numeral.digitsValue [a, b]) else none

def isLeapYear (year : Nat) : Bool := year % 4 = 0 && (year % 100 ≠ 0 || year % 400 = 0)

def daysInMonth (year month : Nat) : Nat :=
  if month = 2 then if isLeapYear year then 29 else 28
  else if month = 4 ∨ month = 6 ∨ month = 9 ∨ month = 11 then 30
  else 31

/-- What stands behind a date at the front of a text. -/
def afterDate? : List Char → Option (List Char)
  | a :: b :: c :: d :: '-' :: e :: f :: '-' :: g :: h :: rest => do
    let year := (← twoDigits? a b) * 100 + (← twoDigits? c d)
    let month ← twoDigits? e f
    let day ← twoDigits? g h
    if 1 ≤ month ∧ month ≤ 12 ∧ 1 ≤ day ∧ day ≤ daysInMonth year month then some rest else none
  | _ => none

/-- What stands behind the fraction of a second, if there is one. -/
def afterFraction? : List Char → Option (List Char)
  | '.' :: rest =>
    if (rest.takeWhile Char.isDigit).isEmpty then none else some (rest.dropWhile Char.isDigit)
  | cs => some cs

/-- What stands behind the seconds of a time, which may be left out. -/
def afterSeconds? : List Char → Option (List Char)
  | ':' :: a :: b :: rest => do
    if (← twoDigits? a b) ≤ 60 then afterFraction? rest else none
  | cs => some cs

/-- What stands behind a time at the front of a text. -/
def afterTime? : List Char → Option (List Char)
  | a :: b :: ':' :: c :: d :: rest => do
    if (← twoDigits? a b) ≤ 23 ∧ (← twoDigits? c d) ≤ 59 then afterSeconds? rest else none
  | _ => none

/-- A distance from universal time, or nothing. -/
def isOffset : List Char → Bool
  | [] => true
  | ['Z'] => true
  | ['z'] => true
  | [sign, a, b, ':', c, d] =>
    (sign = '+' || sign = '-') && (twoDigits? a b).any (· ≤ 23) && (twoDigits? c d).any (· ≤ 59)
  | _ => false

def isDateTimeSeparator (c : Char) : Bool := c = 'T' || c = 't' || c = ' '

/-- A date, a time, or both, where only both together can have an offset. -/
def isMoment (cs : List Char) : Bool :=
  match afterDate? cs with
  | some [] => true
  | some (c :: rest) => isDateTimeSeparator c && (afterTime? rest).any isOffset
  | none => (afterTime? cs).any List.isEmpty

/-! ### Recognition -/

/-- The unquoted value with the given spelling. -/
def scalar? (cs : List Char) : Option Datum :=
  if cs = ['t', 'r', 'u', 'e'] then some (.bool true)
  else if cs = ['f', 'a', 'l', 's', 'e'] then some (.bool false)
  else if isNumber cs then some (.number (String.ofList cs))
  else if isMoment cs then some (.moment (String.ofList cs))
  else none

/-- The characters that end an unquoted value. -/
def isScalarEnd (c : Char) : Bool :=
  isSpace c || c = '\r' || c = '\n' || c = '#' || c = ',' || c = '=' || c = '[' || c = ']' ||
    c = '\x7b' || c = '\x7d'

def isScalarChar (c : Char) : Bool := !isScalarEnd c

/-- How far an unquoted value reaches: up to the first character that cannot be part of one, and
past a single blank between a date and a time. -/
def scalarLength (cs : List Char) : Nat :=
  let word := cs.takeWhile isScalarChar
  match afterDate? word, cs.drop word.length with
  | some [], ' ' :: c :: rest =>
    if c.isDigit then word.length + 1 + ((c :: rest).takeWhile isScalarChar).length
    else word.length
  | _, _ => word.length

def scalar : Reader Datum := fun cs =>
  match takeChars (scalarLength cs) cs with
  | some (word, rest) => (scalar? word).map fun v => (v, rest)
  | none => none

end LayeredSql.Datum.Toml
