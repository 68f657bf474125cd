import LayeredSql.Dialect.Identifier

/-! # Lexical check of SQL fragments

A fragment of SQL is spliced into statements as text, so it has to be closed: every quoted text and
every parenthesis that it opens, it closes, and it holds no statement terminator and no comment. The
check runs a small machine over the characters. The machine is given by one step, so that running it
over a longer text is running it over the parts one after the other. -/

namespace LayeredSql.Fragment

/-- Why a fragment is refused. -/
inductive Problem where
  | empty
  | nul
  | backtick
  | parentheses
  | terminator
  | lineComment
  | blockComment
  | unterminated
deriving DecidableEq, Repr

def Problem.message : Problem → String
  | empty => "empty fragment"
  | nul => "NUL character"
  | backtick => "backtick outside BigQuery"
  | parentheses => "unbalanced parentheses"
  | terminator => "statement terminator"
  | lineComment => "line comment"
  | blockComment => "block comment"
  | unterminated => "unterminated quoted text"

/-- What the characters read so far leave open. -/
inductive Mode where
  /-- Outside quoted text. -/
  | code
  /-- Outside quoted text, behind a `-`. -/
  | dash
  /-- Outside quoted text, behind a `/`. -/
  | slash
  /-- Inside quoted text that ends at `delimiter`. -/
  | quoted (delimiter : Char)
  /-- Inside quoted text, behind a backslash that takes the next character with it. -/
  | escaped (delimiter : Char)
  /-- Behind a delimiter that has ended the quoted text unless the same character follows. -/
  | ended (delimiter : Char)
deriving DecidableEq, Repr

structure State where
  mode : Mode
  /-- Number of parentheses that are open. -/
  depth : Nat
deriving DecidableEq, Repr

def State.start : State := ⟨.code, 0⟩

/-- Reads a character that stands outside quoted text, `depth` parentheses deep. -/
def codeStep (d : Dialect) (depth : Nat) (c : Char) : Except Problem State :=
  if c = '\x27' ∨ c = '"' then .ok ⟨.quoted c, depth⟩
  else if c = '\x60' then
    match d with
    | .bigQuery => .ok ⟨.quoted c, depth⟩
    | .postgreSql => .error .backtick
  else if c = '(' then .ok ⟨.code, depth + 1⟩
  else if c = ')' then
    match depth with
    | 0 => .error .parentheses
    | n + 1 => .ok ⟨.code, n⟩
  else if c = ';' then .error .terminator
  else if c = '-' then .ok ⟨.dash, depth⟩
  else if c = '/' then .ok ⟨.slash, depth⟩
  else if c = '#' ∧ d = .bigQuery then .error .lineComment
  else .ok ⟨.code, depth⟩

/-- Reads one character. -/
def step (d : Dialect) (s : State) (c : Char) : Except Problem State :=
  match s.mode with
  | .code => codeStep d s.depth c
  | .dash => if c = '-' then .error .lineComment else codeStep d s.depth c
  | .slash => if c = '*' then .error .blockComment else codeStep d s.depth c
  | .quoted q =>
    if c = '\\' ∧ d.escapesByBackslash then .ok ⟨.escaped q, s.depth⟩
    else if c = q then .ok ⟨.ended q, s.depth⟩
    else .ok s
  | .escaped q => .ok ⟨.quoted q, s.depth⟩
  | .ended q => if c = q then .ok ⟨.quoted q, s.depth⟩ else codeStep d s.depth c

/-- Reads a text. -/
def run (d : Dialect) (s : State) (cs : List Char) : Except Problem State := cs.foldlM (step d) s

/-- Whether the machine looks at the next character: not behind an escaping backslash. -/
def Mode.looks : Mode → Bool
  | .escaped _ => false
  | _ => true

/-- Reads one character of a fragment, where a NUL that the machine looks at is refused. -/
def checkedStep (d : Dialect) (s : State) (c : Char) : Except Problem State :=
  if c = '\x00' ∧ s.mode.looks then .error .nul else step d s c

def checkedRun (d : Dialect) (s : State) (cs : List Char) : Except Problem State :=
  cs.foldlM (checkedStep d) s

/-- Whether the text may end here as far as quotes are concerned. -/
def Mode.isOutside : Mode → Bool
  | .quoted _ | .escaped _ => false
  | _ => true

/-- The problem of a text that ends in the given state. -/
def State.endProblem (s : State) : Option Problem :=
  if !s.mode.isOutside then some .unterminated
  else if s.depth ≠ 0 then some .parentheses
  else none

/-- The problem that reading a text from the start finds. -/
def runProblem (d : Dialect) (cs : List Char) : Option Problem :=
  match checkedRun d .start cs with
  | .error p => some p
  | .ok s => s.endProblem

/-- The first problem of a fragment, if it has any. -/
def problem (d : Dialect) (sql : String) : Option Problem :=
  if Text.isBlankText sql then some .empty else runProblem d sql.toList

end LayeredSql.Fragment
