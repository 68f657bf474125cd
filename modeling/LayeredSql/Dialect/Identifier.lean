import LayeredSql.Dialect.Keyword
import LayeredSql.Text.Lowercase

/-! # Identifiers

Which names a dialect accepts, how a name is written so that it is read back as the same name, when
two names mean the same column, and how a table is referred to. A name is written bare when the
dialect reads the bare word as that name, and quoted otherwise. -/

namespace LayeredSql.Dialect

/-- The length that the dialect limits. -/
def identifierLength (d : Dialect) (name : String) : Nat :=
  match d with
  | bigQuery => name.length
  | postgreSql => name.utf8ByteSize

/-- A legal name is not empty, not too long and free of control characters. -/
def isLegal (d : Dialect) (name : String) : Bool :=
  !name.isEmpty && d.identifierLength name ≤ d.maxIdentifierLength &&
    !name.toList.any Text.isControl

/-- First characters of a word that needs no quotes. PostgreSQL folds bare words to lowercase, so
there a capital letter needs them. -/
def isPlainStart (d : Dialect) (c : Char) : Bool :=
  match d with
  | bigQuery => c.isAlpha || c = '_'
  | postgreSql => c.isLower || c = '_'

def isPlainRest (d : Dialect) (c : Char) : Bool :=
  match d with
  | bigQuery => c.isAlphanum || c = '_'
  | postgreSql => c.isLower || c.isDigit || c = '_' || c = '$'

def isPlainWord (d : Dialect) : List Char → Bool
  | [] => false
  | c :: rest => d.isPlainStart c && rest.all d.isPlainRest

def needsQuoting (d : Dialect) (name : String) : Bool :=
  !d.isPlainWord name.toList || d.isReserved name

/-- One character of a quoted name: BigQuery puts a backslash in front of a backslash or backtick,
PostgreSQL writes a double quote twice. -/
def escapeChar (d : Dialect) (c : Char) : List Char :=
  match d with
  | bigQuery => if c = '\\' ∨ c = '\x60' then ['\\', c] else [c]
  | postgreSql => if c = '"' then ['"', '"'] else [c]

def escape (d : Dialect) (name : String) : String :=
  String.ofList (name.toList.flatMap d.escapeChar)

/-- Puts already escaped text between the identifier quotes. -/
def enclose (d : Dialect) (escaped : String) : String :=
  String.singleton d.identifierQuote ++ escaped ++ String.singleton d.identifierQuote

/-- The name in quotes, whether it needs them or not. -/
def forceQuote (d : Dialect) (name : String) : String := d.enclose (d.escape name)

/-- The name as it stands in a statement. -/
def quote (d : Dialect) (name : String) : String :=
  if d.needsQuoting name then d.forceQuote name else name

/-- Reference to a stored table: one quoted path in BigQuery; schema and table in PostgreSQL, where
the dataset is the schema and the project plays no part. -/
def tableReference (d : Dialect) (project dataset table : String) : String :=
  match d with
  | bigQuery => d.enclose (d.escape project ++ "." ++ d.escape dataset ++ "." ++ d.escape table)
  | postgreSql => d.quote dataset ++ "." ++ d.quote table

/-- The form of a name that decides which column it means: BigQuery ignores case. -/
def columnKey (d : Dialect) (name : String) : String :=
  match d with
  | bigQuery => Text.lowercase name
  | postgreSql => name

def sameColumn (d : Dialect) (a b : String) : Bool := a == b || d.columnKey a == d.columnKey b

/-- Whether two of the names, at different places, mean the same column. -/
def hasRepeated (d : Dialect) : List String → Bool
  | [] => false
  | name :: rest => rest.any (d.sameColumn name) || d.hasRepeated rest

/-- Names that can stand together as the columns of one relation. -/
def acceptsColumns (d : Dialect) (names : List String) : Bool :=
  names.all d.isLegal && !d.hasRepeated names

theorem sameColumn_iff (d : Dialect) (a b : String) :
    d.sameColumn a b ↔ d.columnKey a = d.columnKey b := by
  simp only [sameColumn, Bool.or_eq_true, beq_iff_eq]
  exact ⟨fun h => h.elim (congrArg d.columnKey) id, Or.inr⟩

theorem hasRepeated_eq_false_iff (d : Dialect) (names : List String) :
    d.hasRepeated names = false ↔ names.Pairwise fun a b => d.sameColumn a b = false := by
  induction names with
  | nil => simp [hasRepeated]
  | cons a rest ih => simp [hasRepeated, ih]

end LayeredSql.Dialect
