import LayeredSql.Datum
import LayeredSql.Numeral
import LayeredSql.Reader

/-! # JSON documents

Reading of strict JSON: one value with nothing but white space around it. Nesting is limited, and a
number has to be finite as a binary number of 64 bits. The printer writes the indented form. -/

namespace LayeredSql.Datum.Json

open Reader

def isSpace (c : Char) : Bool := c = ' ' || c = '\t' || c = '\n' || c = '\r'

def skip (cs : List Char) : List Char := cs.dropWhile isSpace

theorem length_skip_le (cs : List Char) : (skip cs).length ≤ cs.length :=
  (List.dropWhile_sublist isSpace).length_le

/-! ### Strings -/

def hexValue? (c : Char) : Option Nat :=
  if c.isDigit then some (c.toNat - '0'.toNat)
  else if 'a' ≤ c ∧ c ≤ 'f' then some (c.toNat - 'a'.toNat + 10)
  else if 'A' ≤ c ∧ c ≤ 'F' then some (c.toNat - 'A'.toNat + 10)
  else none

/-- The number that hexadecimal digits write. -/
def hexNumber? (cs : List Char) : Option Nat :=
  cs.foldlM (fun n c => (hexValue? c).map (n * 16 + ·)) 0

/-- The character of a code unit, which must not be half of a pair. -/
def unitChar? (unit : Nat) : Option Char :=
  if h : unit.isValidChar then some (Char.ofNatAux unit h) else none

/-- The character of a pair of code units. -/
def pairChar? (high low : Nat) : Option Char :=
  if 0xD800 ≤ high ∧ high < 0xDC00 ∧ 0xDC00 ≤ low ∧ low < 0xE000 then
    unitChar? (0x10000 + (high - 0xD800) * 0x400 + (low - 0xDC00))
  else none

def plainEscape? : Char → Option Char
  | '"' => some '"'
  | '\\' => some '\\'
  | '/' => some '/'
  | 'b' => some '\x08'
  | 'f' => some '\x0C'
  | 'n' => some '\n'
  | 'r' => some '\r'
  | 't' => some '\t'
  | _ => none

/-- Reads one character of a string, or its closing quote. -/
def stringChar : Reader (Option Char)
  | '"' :: rest => some (none, .tail _ rest)
  | '\\' :: 'u' :: a :: b :: c :: d :: '\\' :: 'u' :: e :: f :: g :: h :: rest =>
    match hexNumber? [a, b, c, d] with
    | none => none
    | some unit =>
      match unitChar? unit with
      | some char =>
        some (some char, ⟨'\\' :: 'u' :: e :: f :: g :: h :: rest, by
          simp only [List.length_cons]; omega⟩)
      | none =>
        match (hexNumber? [e, f, g, h]).bind (pairChar? unit) with
        | some char => some (some char, ⟨rest, by simp only [List.length_cons]; omega⟩)
        | none => none
  | '\\' :: 'u' :: a :: b :: c :: d :: rest =>
    match (hexNumber? [a, b, c, d]).bind unitChar? with
    | some char => some (some char, ⟨rest, by simp only [List.length_cons]; omega⟩)
    | none => none
  | '\\' :: c :: rest =>
    match plainEscape? c with
    | some char => some (some char, ⟨rest, by simp only [List.length_cons]; omega⟩)
    | none => none
  | c :: rest => if c = '\\' ∨ c.toNat < 0x20 then none else some (some c, .tail _ rest)
  | [] => none

/-- Reads what stands behind an opening quote. -/
def stringBody : Reader String := fun cs =>
  match untilNone stringChar cs with
  | some (chars, rest) => some (String.ofList chars, rest)
  | none => none

/-! ### Numbers -/

structure NumberParts where
  sign : List Char
  integer : List Char
  fraction : List Char
  exponent : Int
  /-- Number of characters of the whole numeral. -/
  size : Nat

/-- The digits at the front of a text. -/
def digits (cs : List Char) : List Char := cs.takeWhile Char.isDigit

/-- The digits before the point: a single zero, or digits that do not start with zero. -/
def integerDigits (cs : List Char) : List Char :=
  match cs with
  | '0' :: _ => ['0']
  | _ => digits cs

/-- An exponent mark with its number, and how many characters it takes. Without a mark it is zero
and takes none. -/
def exponentPart (cs : List Char) : Option (Int × Nat) :=
  match cs with
  | mark :: rest =>
    if mark = 'e' ∨ mark = 'E' then
      let (sign, rest) := match rest with
        | '-' :: rest => (['-'], rest)
        | '+' :: rest => (['+'], rest)
        | _ => ([], rest)
      let ds := digits rest
      if ds.isEmpty then none
      else
        let n : Int := Numeral.digitsValue ds
        some (if sign = ['-'] then -n else n, 1 + sign.length + ds.length)
    else some (0, 0)
  | [] => some (0, 0)

def fractionDigits (cs : List Char) : Option (List Char × Nat) :=
  match cs with
  | '.' :: rest =>
    let ds := digits rest
    if ds.isEmpty then none else some (ds, 1 + ds.length)
  | _ => some ([], 0)

def numberParts (cs : List Char) : Option NumberParts := do
  let sign := match cs with
    | '-' :: _ => ['-']
    | _ => []
  let integer := integerDigits (cs.drop sign.length)
  if integer.isEmpty then none
  let size := sign.length + integer.length
  let (fraction, fractionSize) ← fractionDigits (cs.drop size)
  let (exponent, exponentSize) ← exponentPart (cs.drop (size + fractionSize))
  return ⟨sign, integer, fraction, exponent, size + fractionSize + exponentSize⟩

def number : Reader Datum := fun cs =>
  match numberParts cs with
  | some parts =>
    if Numeral.inProductRange parts.integer parts.fraction parts.exponent then
      match takeChars parts.size cs with
      | some (lexeme, rest) => some (.number (String.ofList lexeme), rest)
      | none => none
    else none
  | none => none

/-! ### Values -/

/-- Reads a value that is no list and no record, without space in front. -/
def scalar : Reader Datum
  | 'n' :: 'u' :: 'l' :: 'l' :: rest =>
    some (.null, ⟨rest, by simp only [List.length_cons]; omega⟩)
  | 't' :: 'r' :: 'u' :: 'e' :: rest =>
    some (.bool true, ⟨rest, by simp only [List.length_cons]; omega⟩)
  | 'f' :: 'a' :: 'l' :: 's' :: 'e' :: rest =>
    some (.bool false, ⟨rest, by simp only [List.length_cons]; omega⟩)
  | '"' :: rest =>
    match stringBody rest with
    | some (s, last) => some (.text s, last.behind _)
    | none => none
  | cs => number cs

def brackets (close : Char) : Brackets := ⟨skip, length_skip_le, close, false⟩

/-- Reads a member of a record: a name, a colon and a value. -/
def member (value : Reader Datum) : Reader (String × Datum)
  | '"' :: cs =>
    match stringBody cs with
    | none => none
    | some (name, rest) =>
      match h : skip rest.1 with
      | ':' :: more =>
        match value (skip more) with
        | some (v, last) =>
          some ((name, v), ⟨last.1, by
            have h₁ := length_skip_le rest.1
            have h₂ := length_skip_le more
            have h₃ := rest.2
            have h₄ := last.2
            rw [h, List.length_cons] at h₁
            rw [List.length_cons]
            omega⟩)
        | none => none
      | _ => none
  | _ => none

/-- Reads a value with at most `depth` lists and records inside each other, without space in
front. -/
def value : Nat → Reader Datum
  | 0 => fun cs => scalar cs
  | depth + 1 => fun cs =>
    match cs with
    | '[' :: rest =>
      match (brackets ']').list (value depth) rest with
      | some (items, last) => some (.list items, last.behind _)
      | none => none
    | '\x7b' :: rest =>
      match (brackets '\x7d').list (member (value depth)) rest with
      | some (members, last) => some (.record members, last.behind _)
      | none => none
    | cs => scalar cs

/-- The greatest number of lists and records inside each other. -/
def maxDepth : Nat := 127

def parse (source : String) : Option Datum :=
  match value maxDepth (skip source.toList) with
  | some (v, rest) => if (skip rest.1).isEmpty then some v else none
  | none => none

/-! ### Printing -/

def escapeChar (c : Char) : List Char :=
  if c = '"' then ['\\', '"']
  else if c = '\\' then ['\\', '\\']
  else if c = '\x08' then ['\\', 'b']
  else if c = '\x0C' then ['\\', 'f']
  else if c = '\n' then ['\\', 'n']
  else if c = '\r' then ['\\', 'r']
  else if c = '\t' then ['\\', 't']
  else if c.toNat < 0x20 then
    ['\\', 'u', '0', '0', Nat.digitChar (c.toNat / 16), Nat.digitChar (c.toNat % 16)]
  else [c]

def quote (s : String) : String :=
  "\"" ++ String.ofList (s.toList.flatMap escapeChar) ++ "\""

/-- Line break and indentation, two blanks for each level. -/
def newline (level : Nat) : String := "\n" ++ String.ofList (List.replicate (2 * level) ' ')

/-- Puts printed items between brackets, each on a line of its own. -/
def block (level : Nat) (opening closing : String) (items : List String) : String :=
  if items.isEmpty then opening ++ closing
  else opening ++ newline (level + 1) ++ ("," ++ newline (level + 1)).intercalate items ++
    newline level ++ closing

mutual

/-- The indented form of a value that stands at the given level. -/
def pretty (level : Nat) : Datum → String
  | .null => "null"
  | .bool b => if b then "true" else "false"
  | .number lexeme => lexeme
  | .moment lexeme => quote lexeme
  | .text s => quote s
  | .list items => block level "[" "]" (prettyItems (level + 1) items)
  | .record members => block level "\x7b" "\x7d" (prettyMembers (level + 1) members)

def prettyItems (level : Nat) : List Datum → List String
  | [] => []
  | item :: rest => pretty level item :: prettyItems level rest

def prettyMembers (level : Nat) : List (String × Datum) → List String
  | [] => []
  | (name, v) :: rest => (quote name ++ ": " ++ pretty level v) :: prettyMembers level rest

end

end LayeredSql.Datum.Json
