import LayeredSql.Datum.Toml.Scalar
import LayeredSql.Datum.Toml.Table

/-! # TOML documents

Reading of TOML 1.1. A document is a sequence of statements, one to a line: a key with its value, or
the header of a table or of an element of a list of tables. The statements are read first and then
carried out one after the other on the tables built so far. -/

namespace LayeredSql.Datum.Toml

open Reader

/-- What may stand between the parts of a list or an inline table: blanks, line breaks and
comments. -/
def skipTrivia (cs : List Char) : List Char :=
  match cs with
  | '\r' :: '\n' :: rest => skipTrivia rest
  | '#' :: rest => skipTrivia (rest.dropWhile isPrintable)
  | c :: rest => if isSpace c || c = '\n' then skipTrivia rest else c :: rest
  | [] => []
termination_by cs.length
decreasing_by
  · simp only [List.length_cons]
    omega
  · have := (List.dropWhile_sublist isPrintable (l := rest)).length_le
    simp only [List.length_cons]
    omega
  · exact Nat.lt_succ_self _

theorem length_skipTrivia_le (cs : List Char) : (skipTrivia cs).length ≤ cs.length := by
  fun_induction skipTrivia cs with
  | case1 rest ih =>
    simp only [List.length_cons]
    omega
  | case2 rest ih =>
    have := (List.dropWhile_sublist isPrintable (l := rest)).length_le
    simp only [List.length_cons]
    omega
  | case3 c rest _ _ _ ih =>
    simp only [List.length_cons]
    omega
  | case4 => exact Nat.le_refl _
  | case5 => exact Nat.le_refl _

def brackets (close : Char) : Brackets := ⟨skipTrivia, length_skipTrivia_le, close, true⟩

/-- Reads a path, an equals sign and a value, where `skip` passes over what may stand on both sides
of the sign. -/
def assignment (skip : List Char → List Char) (skip_le : ∀ cs, (skip cs).length ≤ cs.length)
    (value : Reader Datum) : Reader (KeyPath × Datum) := fun cs =>
  match keyPath cs with
  | none => none
  | some (p, rest) =>
    match h : skip rest.1 with
    | '=' :: more =>
      match value (skip more) with
      | some (v, last) =>
        some ((p, v), ⟨last.1, by
          have h₁ := skip_le rest.1
          have h₂ := skip_le more
          have h₃ := rest.2
          have h₄ := last.2
          rw [h, List.length_cons] at h₁
          omega⟩)
      | none => none
    | _ => none

/-- Reads an assignment on a line of its own. -/
def lineAssignment : Reader Datum → Reader (KeyPath × Datum) :=
  assignment skipSpace length_skipSpace_le

/-- Reads an assignment in an inline table, which may go over several lines. -/
def inlineAssignment : Reader Datum → Reader (KeyPath × Datum) :=
  assignment skipTrivia length_skipTrivia_le

/-- Reads a value that is no list and no inline table. -/
def simpleValue : Reader Datum := fun cs =>
  match cs with
  | [] => none
  | c :: rest =>
    if c = '"' ∨ c = '\x27' then
      match quotedText (c :: rest) with
      | some (s, last) => some (.text s, last)
      | none => none
    else scalar (c :: rest)

/-- Reads a value with at most `depth` lists and inline tables inside each other. -/
def value : Nat → Reader Datum
  | 0 => fun cs => simpleValue cs
  | depth + 1 => fun cs =>
    match cs with
    | '[' :: rest =>
      match (brackets ']').list (value depth) rest with
      | some (items, last) => some (.list items, last.behind _)
      | none => none
    | '\x7b' :: rest =>
      match (brackets '\x7d').list (inlineAssignment (value depth)) rest with
      | some (entries, last) =>
        (inlineTable entries).map fun v => (v, last.behind _)
      | none => none
    | cs => simpleValue cs

/-- The greatest number of lists and inline tables inside each other. -/
def maxDepth : Nat := 80

/-! ### Statements -/

inductive Statement where
  | assign (path : KeyPath) (value : Datum)
  | table (path : KeyPath)
  | element (path : KeyPath)

/-- Reads the path of a header and the brackets that close it. -/
def header (closing : List Char) : Reader KeyPath := fun cs =>
  match keyPath (skipSpace cs) with
  | none => none
  | some (p, rest) =>
    if closing.isPrefixOf (skipSpace rest.1) then
      some (p, ⟨(skipSpace rest.1).drop closing.length, by
        have h₁ := length_skipSpace_le cs
        have h₂ := rest.2
        have h₃ := length_skipSpace_le rest.1
        rw [List.length_drop]
        omega⟩)
    else none

def statement : Reader Statement := fun cs =>
  match cs with
  | '[' :: '[' :: rest =>
    match header [']', ']'] rest with
    | some (p, last) => some (.element p, (last.behind _).behind _)
    | none => none
  | '[' :: rest =>
    match header [']'] rest with
    | some (p, last) => some (.table p, last.behind _)
    | none => none
  | cs =>
    match lineAssignment (value maxDepth) cs with
    | some ((p, v), last) => some (.assign p v, last)
    | none => none

/-- What stands behind a comment, if the text starts with one. -/
def skipComment : List Char → List Char
  | '#' :: rest => rest.dropWhile isPrintable
  | cs => cs

theorem length_skipComment_le (cs : List Char) : (skipComment cs).length ≤ cs.length := by
  unfold skipComment
  split
  · rename_i rest
    have := (List.dropWhile_sublist isPrintable (l := rest)).length_le
    simp only [List.length_cons]
    omega
  · exact Nat.le_refl _

/-- The text behind the end of a line that holds nothing more than blanks and a comment. -/
def endOfLine? (cs : List Char) : Option (List Char) :=
  match skipComment (skipSpace cs) with
  | [] => some []
  | rest => lineBreak? rest

theorem length_of_endOfLine? {cs rest : List Char} (h : endOfLine? cs = some rest) :
    rest.length < cs.length ∨ rest = [] := by
  unfold endOfLine? at h
  have h₁ := length_skipComment_le (skipSpace cs)
  have h₂ := length_skipSpace_le cs
  split at h
  · cases h
    exact Or.inr rfl
  · have := length_of_lineBreak? h
    exact Or.inl (by omega)

/-- Whether a line that starts with this character holds no statement. -/
def isIdleStart (c : Char) : Bool := c = '#' || c = '\n' || c = '\r'

theorem length_endOfLine?_lt {cs rest : List Char} {n : Nat} (h : endOfLine? cs = some rest)
    (hc : cs.length ≤ n) (hn : 0 < n) : rest.length < n := by
  rcases length_of_endOfLine? h with hr | hr
  · omega
  · rw [hr, List.length_nil]
    exact hn

/-- The statements of a document in order. A line without a statement is passed over. -/
def statements (cs : List Char) : Option (List Statement) :=
  match h₀ : skipSpace cs with
  | [] => some []
  | c :: rest =>
    have within : (c :: rest).length ≤ cs.length := h₀ ▸ length_skipSpace_le cs
    if isIdleStart c then
      match h : endOfLine? (c :: rest) with
      | some next =>
        have : next.length < cs.length :=
          length_endOfLine?_lt h within (Nat.lt_of_lt_of_le (Nat.succ_pos _) within)
        statements next
      | none => none
    else
      match statement (c :: rest) with
      | none => none
      | some (s, last) =>
        match h : endOfLine? last.1 with
        | some next =>
          have : next.length < cs.length :=
            length_endOfLine?_lt h (Nat.le_trans (Nat.le_of_lt last.2) within)
              (Nat.lt_of_lt_of_le (Nat.succ_pos _) within)
          (statements next).map (s :: ·)
        | none => none
termination_by cs.length

/-! ### Documents -/

/-- The tables built so far, and the path of the header in force. -/
structure Builder where
  root : Members
  current : List String

def Builder.carryOut (b : Builder) : Statement → Option Builder
  | .assign p v =>
    (b.root.inside (Members.assign v p.key p.parents) b.current).map ({ b with root := · })
  | .table p => (b.root.openTable p).map (⟨·, p.parents ++ [p.key]⟩)
  | .element p => (b.root.openElement p).map (⟨·, p.parents ++ [p.key]⟩)

/-- A byte-order mark in front of the document is passed over. -/
def dropMark : List Char → List Char
  | '\uFEFF' :: cs => cs
  | cs => cs

/-- The data of a document. Its numbers are well spelled, but need not be readable. -/
def parse (source : String) : Option Datum := do
  let all ← statements (dropMark source.toList)
  let built ← all.foldlM Builder.carryOut ⟨[], []⟩
  return .record (recordMembers built.root)

mutual

/-- Whether every number in the data can be read. -/
def isReadable : Datum → Bool
  | .number lexeme => isReadableNumber lexeme.toList
  | .list items => areReadable items
  | .record members => areReadableMembers members
  | _ => true

def areReadable : List Datum → Bool
  | [] => true
  | item :: rest => isReadable item && areReadable rest

def areReadableMembers : List (String × Datum) → Bool
  | [] => true
  | (_, v) :: rest => isReadable v && areReadableMembers rest

end

end LayeredSql.Datum.Toml
