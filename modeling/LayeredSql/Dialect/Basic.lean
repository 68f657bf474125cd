import LayeredSql.Text.Blank

/-! # Dialects

The two SQL dialects that statements are written for, and the rules in which they differ that are
plain values. -/

namespace LayeredSql

inductive Dialect where
  | bigQuery
  | postgreSql
deriving DecidableEq, Repr, Inhabited

namespace Dialect

def all : List Dialect := [bigQuery, postgreSql]

def name : Dialect → String
  | bigQuery => "bigquery"
  | postgreSql => "postgresql"

/-- Greatest length of an identifier: in characters for BigQuery, in UTF-8 bytes for PostgreSQL. -/
def maxIdentifierLength : Dialect → Nat
  | bigQuery => 300
  | postgreSql => 63

/-- Whether a table is qualified by a project besides its dataset. -/
def usesProject : Dialect → Bool
  | bigQuery => true
  | postgreSql => false

/-- Whether a backslash inside quoted text makes the next character part of the text. -/
def escapesByBackslash : Dialect → Bool
  | bigQuery => true
  | postgreSql => false

/-- The character around a quoted identifier. -/
def identifierQuote : Dialect → Char
  | bigQuery => '\x60'
  | postgreSql => '"'

/-- The spelling in which dialect names are compared. -/
def normalName (text : String) : String := (Text.trim text).map Char.toLower

/-- The dialect with the given name or short name, in any ASCII case and between any blanks. -/
def ofName? (text : String) : Option Dialect :=
  match normalName text with
  | "bigquery" | "bq" => some bigQuery
  | "postgresql" | "postgres" | "pg" => some postgreSql
  | _ => none

theorem ofName?_name (d : Dialect) : ofName? d.name = some d := by cases d <;> decide +kernel

end Dialect

end LayeredSql
