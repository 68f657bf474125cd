import LayeredSql.Datum.Json

/-! # Texts and keys of TOML

The four kinds of quoted text, and the keys that name a place in a document. A key is a path: simple
keys with dots between them. -/

namespace LayeredSql.Datum.Toml

open Reader

def isSpace (c : Char) : Bool := c = ' ' || c = '\t'

def skipSpace (cs : List Char) : List Char := cs.dropWhile isSpace

theorem length_skipSpace_le (cs : List Char) : (skipSpace cs).length ≤ cs.length :=
  (List.dropWhile_sublist isSpace).length_le

/-- The characters that may stand as they are in a comment or in quoted text on one line. -/
def isPrintable (c : Char) : Bool := c = '\t' || (0x20 ≤ c.toNat && c.toNat ≠ 0x7F)

/-! ### Escapes -/

/-- The character of a code point written in hexadecimal digits. -/
def codePoint? (digits : List Char) : Option Char := (Json.hexNumber? digits).bind Json.unitChar?

def plainEscape? : Char → Option Char
  | 'b' => some '\x08'
  | 't' => some '\t'
  | 'n' => some '\n'
  | 'f' => some '\x0C'
  | 'r' => some '\r'
  | 'e' => some '\x1B'
  | '"' => some '"'
  | '\\' => some '\\'
  | _ => none

/-- Number of hexadecimal digits behind the letter of a numeric escape. -/
def escapeDigits? : Char → Option Nat
  | 'x' => some 2
  | 'u' => some 4
  | 'U' => some 8
  | _ => none

/-- Reads what stands behind a backslash. -/
def escape : Reader Char
  | letter :: rest =>
    match escapeDigits? letter with
    | some n =>
      match takeChars n rest with
      | some (digits, last) =>
        (codePoint? digits).map fun c => (c, last.behind _)
      | none => none
    | none => (plainEscape? letter).map fun c => (c, .tail _ rest)
  | [] => none

/-! ### Quoted text -/

/-- Reads one character of basic text, or its closing quote. -/
def basicChar : Reader (Option (List Char))
  | '"' :: rest => some (none, .tail _ rest)
  | '\\' :: rest =>
    match escape rest with
    | some (c, last) => some (some [c], last.behind _)
    | none => none
  | c :: rest => if isPrintable c then some (some [c], .tail _ rest) else none
  | [] => none

/-- Reads one character of literal text, or its closing quote. -/
def literalChar : Reader (Option (List Char))
  | '\x27' :: rest => some (none, .tail _ rest)
  | c :: rest => if isPrintable c then some (some [c], .tail _ rest) else none
  | [] => none

/-- What a line break at the front of a text leaves behind it. -/
def lineBreak? : List Char → Option (List Char)
  | '\n' :: rest => some rest
  | '\r' :: '\n' :: rest => some rest
  | _ => none

theorem length_of_lineBreak? {cs rest : List Char} (h : lineBreak? cs = some rest) :
    rest.length < cs.length := by
  unfold lineBreak? at h
  split at h
  · cases h
    exact Nat.lt_succ_self _
  · cases h
    simp only [List.length_cons]
    omega
  · cases h

/-- Passes over blanks and line breaks. -/
def skipLines : List Char → List Char
  | '\r' :: '\n' :: rest => skipLines rest
  | c :: rest => if isSpace c || c = '\n' then skipLines rest else c :: rest
  | [] => []

theorem length_skipLines_le (cs : List Char) : (skipLines cs).length ≤ cs.length := by
  fun_induction skipLines cs with
  | case1 rest ih =>
    simp only [List.length_cons]
    omega
  | case2 c rest _ _ ih =>
    simp only [List.length_cons]
    omega
  | case3 => exact Nat.le_refl _
  | case4 => exact Nat.le_refl _

/-- Reads from a run of quotes in text that ends at three of them. One or two quotes are part of the
text, also right in front of the closing three; a longer run cannot be read. -/
def quoteRun (q : Char) : Reader (Option (List Char)) := fun cs =>
  let run := (cs.takeWhile (· = q)).length
  if run = 3 then (takeChars 3 cs).map fun r => (none, r.2)
  else if run < 6 then (takeChars 1 cs).map fun r => (some r.1, r.2)
  else none

/-- Reads one unit of basic text that may span lines, or its closing quotes. A backslash at the end
of a line joins the next line that is not blank. -/
def multilineBasicChar : Reader (Option (List Char)) := fun cs =>
  match cs with
  | '"' :: rest => quoteRun '"' ('"' :: rest)
  | '\\' :: rest =>
    match h : lineBreak? (skipSpace rest) with
    | some last =>
      some (some [], ⟨skipLines last, by
        have h₁ := length_of_lineBreak? h
        have h₂ := length_skipSpace_le rest
        have h₃ := length_skipLines_le last
        simp only [List.length_cons]
        omega⟩)
    | none =>
      match escape rest with
      | some (c, last) => some (some [c], last.behind _)
      | none => none
  | '\r' :: '\n' :: rest => some (some ['\r', '\n'], ⟨rest, by simp only [List.length_cons]; omega⟩)
  | c :: rest => if isPrintable c ∨ c = '\n' then some (some [c], .tail _ rest) else none
  | [] => none

/-- Reads one unit of literal text that may span lines, or its closing quotes. -/
def multilineLiteralChar : Reader (Option (List Char)) := fun cs =>
  match cs with
  | '\x27' :: rest => quoteRun '\x27' ('\x27' :: rest)
  | '\r' :: '\n' :: rest => some (some ['\r', '\n'], ⟨rest, by simp only [List.length_cons]; omega⟩)
  | c :: rest => if isPrintable c ∨ c = '\n' then some (some [c], .tail _ rest) else none
  | [] => none

/-- Reads units up to the closing quote. -/
def body (unit : Reader (Option (List Char))) : Reader String := fun cs =>
  match untilNone unit cs with
  | some (units, rest) => some (String.ofList units.flatten, rest)
  | none => none

/-- A line break right behind the opening quotes is not part of the text. -/
def multilineBody (unit : Reader (Option (List Char))) : Reader String := fun cs =>
  match h : lineBreak? cs with
  | some rest =>
    match body unit rest with
    | some (s, last) =>
      some (s, ⟨last.1, Nat.lt_trans last.2 (length_of_lineBreak? h)⟩)
    | none => none
  | none => body unit cs

/-- Reads quoted text of any kind. -/
def quotedText : Reader String
  | '"' :: '"' :: '"' :: rest =>
    match multilineBody multilineBasicChar rest with
    | some (s, last) => some (s, ((last.behind _).behind _).behind _)
    | none => none
  | '\x27' :: '\x27' :: '\x27' :: rest =>
    match multilineBody multilineLiteralChar rest with
    | some (s, last) => some (s, ((last.behind _).behind _).behind _)
    | none => none
  | '"' :: rest =>
    match body basicChar rest with
    | some (s, last) => some (s, last.behind _)
    | none => none
  | '\x27' :: rest =>
    match body literalChar rest with
    | some (s, last) => some (s, last.behind _)
    | none => none
  | _ => none

/-! ### Keys -/

def isBareKeyChar (c : Char) : Bool := c.isAlphanum || c = '_' || c = '-'

/-- Reads a simple key: a bare word, or quoted text on one line. -/
def simpleKey : Reader String
  | '"' :: rest =>
    match body basicChar rest with
    | some (s, last) => some (s, last.behind _)
    | none => none
  | '\x27' :: rest =>
    match body literalChar rest with
    | some (s, last) => some (s, last.behind _)
    | none => none
  | cs =>
    match takeChars (cs.takeWhile isBareKeyChar).length cs with
    | some (word, rest) => some (String.ofList word, rest)
    | none => none

theorem length_behind_dot {cs rest more : List Char} {c : Char} (h : skipSpace rest = c :: more)
    (hr : rest.length < cs.length) : (skipSpace more).length < cs.length := by
  have h₁ := length_skipSpace_le rest
  have h₂ := length_skipSpace_le more
  rw [h, List.length_cons] at h₁
  omega

/-- Reads simple keys with dots between them. -/
def keyParts (cs : List Char) : Option (List String × Shorter cs) :=
  match simpleKey cs with
  | none => none
  | some (part, rest) =>
    match h : skipSpace rest.1 with
    | '.' :: more =>
      have short : (skipSpace more).length < cs.length := length_behind_dot h rest.2
      match keyParts (skipSpace more) with
      | some (parts, last) => some (part :: parts, ⟨last.1, Nat.lt_trans last.2 short⟩)
      | none => none
    | _ => some ([part], rest)
termination_by cs.length

/-- The greatest number of simple keys in a path. -/
def maxKeyParts : Nat := 80

/-- A path: the keys that lead to a table, and the key inside it. -/
structure KeyPath where
  parents : List String
  key : String
deriving Repr

/-- The path with the given simple keys. -/
def KeyPath.ofParts? : List String → Option KeyPath
  | [] => none
  | [key] => some ⟨[], key⟩
  | part :: parts => (KeyPath.ofParts? parts).map fun p => { p with parents := part :: p.parents }

def keyPath : Reader KeyPath := fun cs =>
  match keyParts cs with
  | some (parts, rest) =>
    if parts.length ≤ maxKeyParts then (KeyPath.ofParts? parts).map fun p => (p, rest) else none
  | none => none

end LayeredSql.Datum.Toml
