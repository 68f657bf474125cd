/-! # Data

A tree of plain data, as documents hold it. Numbers and moments keep the spelling that they were
written with; nothing here computes with them. The members of a record stand in order, and their
names may repeat. -/

namespace LayeredSql

inductive Datum where
  | null
  | bool (value : Bool)
  | number (lexeme : String)
  | moment (lexeme : String)
  | text (value : String)
  | list (items : List Datum)
  | record (members : List (String × Datum))
deriving Repr, Inhabited

namespace Datum

def text? : Datum → Option String
  | text s => some s
  | _ => none

def list? : Datum → Option (List Datum)
  | list items => some items
  | _ => none

end Datum

end LayeredSql
