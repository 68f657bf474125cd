import LayeredSql.Datum.Toml.Text

/-! # Tables under construction

A document builds its tables piece by piece, and what a piece may still add depends on how a table
came about. A table that a header opened is complete once the header has been closed, except for
tables below it; one that only led to another may be opened once; and one that dotted keys made
takes further dotted keys. Values, inline tables among them, take nothing. -/

namespace LayeredSql.Datum.Toml

/-- How a table came about. -/
inductive Origin where
  /-- On the way to a table that a header opened. -/
  | implied
  /-- By a key with dots. -/
  | dotted
  /-- By a header of its own. -/
  | header
deriving DecidableEq, Repr

inductive Item where
  | value (v : Datum)
  | table (origin : Origin) (members : List (String × Item))
  /-- A list of tables that headers add to: the complete ones, and the members of the last. -/
  | tables (complete : List Datum) (last : List (String × Item))

abbrev Members := List (String × Item)

mutual

/-- The data that an item holds. -/
def Item.toDatum : Item → Datum
  | .value v => v
  | .table _ members => .record (recordMembers members)
  | .tables complete last => .list (complete ++ [.record (recordMembers last)])

def recordMembers : List (String × Item) → List (String × Datum)
  | [] => []
  | (name, item) :: rest => (name, item.toDatum) :: recordMembers rest

end

namespace Members

/-- Changes the item under a key, or makes it. The change may be refused. -/
def alter (key : String) (change : Option Item → Option Item) : Members → Option Members
  | [] => (change none).map fun item => [(key, item)]
  | (name, item) :: rest =>
    if name = key then (change (some item)).map fun new => (name, new) :: rest
    else (alter key change rest).map ((name, item) :: ·)

/-- Puts a value under a key with dots. Tables on the way are made where they are missing; the last
of them has to be one that dotted keys made, and none may have a header. -/
def assign (v : Datum) (key : String) : List String → Members → Option Members
  | [], members =>
    members.alter key fun
      | none => some (.value v)
      | some _ => none
  | parent :: parents, members =>
    members.alter parent fun
      | none => (assign v key parents []).map (.table .dotted)
      | some (.table origin inner) =>
        if origin = .header ∨ (parents.isEmpty ∧ origin ≠ .dotted) then none
        else (assign v key parents inner).map (.table origin)
      | some (.tables complete last) =>
        if parents.isEmpty then none else (assign v key parents last).map (.tables complete)
      | some (.value _) => none

/-- Changes the members of the table that the keys of a header lead to. In a list of tables they
lead to the last one. -/
def inside (change : Members → Option Members) : List String → Members → Option Members
  | [], members => change members
  | parent :: parents, members =>
    members.alter parent fun
      | none => (inside change parents []).map (.table .implied)
      | some (.table origin inner) => (inside change parents inner).map (.table origin)
      | some (.tables complete last) => (inside change parents last).map (.tables complete)
      | some (.value _) => none

/-- Opens a table by its header. -/
def openTable (p : KeyPath) (members : Members) : Option Members :=
  members.inside (fun inner => inner.alter p.key fun
    | none => some (.table .header [])
    | some (.table .implied below) => some (.table .header below)
    | some _ => none) p.parents

/-- Adds a table to a list of tables by its header. -/
def openElement (p : KeyPath) (members : Members) : Option Members :=
  members.inside (fun inner => inner.alter p.key fun
    | none => some (.tables [] [])
    | some (.tables complete last) =>
      some (.tables (complete ++ [.record (recordMembers last)]) [])
    | some _ => none) p.parents

end Members

/-- The record of an inline table with the given entries. -/
def inlineTable (entries : List (KeyPath × Datum)) : Option Datum :=
  let add (members : Members) (entry : KeyPath × Datum) : Option Members :=
    members.assign entry.2 entry.1.key entry.1.parents
  (entries.foldlM add []).map fun members => .record (recordMembers members)

end LayeredSql.Datum.Toml
