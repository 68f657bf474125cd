import LayeredSql.Error
import LayeredSql.Operation
import LayeredSql.Query

/-! # Relations

A relation is a statement in one dialect together with the columns that it yields. It starts as a
selection from a stored table, and every operation puts a layer around it. An operation that is not
acceptable yields a rejection instead, and a rejection stays what it is under every further
operation. -/

namespace LayeredSql

/-- A stored table and the columns to read from it. The derived tables of later layers go by
`name`. -/
structure TableSource where
  project : String
  dataset : String
  table : String
  name : String
  columns : List String
deriving DecidableEq, Repr

/-- Why a stored table is not a base relation. -/
inductive BaseFault where
  | blankProject (dialect : Dialect)
  | blankDataset
  | blankTable
  | illegalName (dialect : Dialect) (name : String)
  | illegalColumn (dialect : Dialect) (column : String)
  | repeatedColumn (column : String)
  | noColumns
deriving DecidableEq, Repr

def BaseFault.message : BaseFault → String
  | blankProject d => "a project is required for " ++ d.name ++ " tables"
  | blankDataset => "a dataset is required to qualify the source table"
  | blankTable => "source table name is empty"
  | illegalName d name =>
    "dataset name '" ++ name ++ "' is not a legal " ++ d.name ++ " identifier"
  | illegalColumn d column => "column '" ++ column ++ "' is not a legal " ++ d.name ++ " identifier"
  | repeatedColumn column => "column '" ++ column ++ "' is listed more than once"
  | noColumns => "a base relation needs at least one column"

def BaseFault.toError (f : BaseFault) : Error := .invalidArgument f.message

structure Relation where
  dialect : Dialect
  /-- The stored table at the bottom. -/
  table : String
  /-- The name of the derived tables. -/
  name : String
  columns : List String
  sql : String
  /-- Number of operations since the base. -/
  depth : Nat
  operation : OperationKind
deriving DecidableEq, Repr

/-- What an operation yields. -/
abbrev Derived := Except Rejection Relation

namespace TableSource

/-- The first column that is illegal or the same as one before it, where `seen` holds the columns
in front of the list. -/
def columnFault (d : Dialect) (seen : List String) : List String → Option BaseFault
  | [] => none
  | column :: rest =>
    if !d.isLegal column then some (.illegalColumn d column)
    else if seen.any fun earlier => d.sameColumn earlier column then some (.repeatedColumn column)
    else columnFault d (seen ++ [column]) rest

/-- The first fault of the table, in the order in which the parts are looked at. -/
def fault (d : Dialect) (s : TableSource) : Option BaseFault :=
  if d.usesProject && Text.isBlankText s.project then some (.blankProject d)
  else if Text.isBlankText s.dataset then some .blankDataset
  else if Text.isBlankText s.table then some .blankTable
  else if !d.isLegal s.name then some (.illegalName d s.name)
  else if let some f := columnFault d [] s.columns then some f
  else if s.columns.isEmpty then some .noColumns
  else none

def reference (d : Dialect) (s : TableSource) : String :=
  d.tableReference s.project s.dataset s.table

end TableSource

namespace Relation

/-- Each column under its own name. -/
def selectColumns (d : Dialect) (columns : List String) : SelectList :=
  SelectList.ofList (columns.map fun column => (column, Expr.ofColumn d column))

/-- The relation that reads the columns of a stored table. -/
def ofTable (d : Dialect) (s : TableSource) : Except BaseFault Relation :=
  match s.fault d with
  | some f => .error f
  | none =>
    let selected := selectColumns d s.columns
    .ok {
      dialect := d
      table := s.table
      name := s.name
      columns := selected.names
      sql := Query.ofTable d selected (s.reference d)
      depth := 0
      operation := .base }

def selected (r : Relation) : SelectList := selectColumns r.dialect r.columns

/-- The column that the name means in this relation. -/
def column? (r : Relation) (name : String) : Option String :=
  r.columns.find? fun column => r.dialect.sameColumn column name

/-- The select list of the outermost layer after the operation. -/
def outputList (r : Relation) : Operation → SelectList
  | .setColumn name value =>
    match r.column? name with
    | some column => (r.selected.rename column name).insert name value
    | none => r.selected.insert name value
  | .dropColumn name =>
    match r.column? name with
    | some column => r.selected.erase column
    | none => r.selected
  | .select columns => columns
  | .filter _ => r.selected
  | .groupBy grouping => grouping.select
  | .deduplicate deduplication => deduplication.select

/-- The statement after the operation. -/
def layer (r : Relation) (op : Operation) : String :=
  match op with
  | .filter condition => Query.nested r.dialect (r.outputList op) r.sql r.name (some condition)
  | .groupBy grouping => Query.grouped r.dialect grouping r.sql r.name
  | .deduplicate deduplication => Query.deduplicated r.dialect deduplication r.sql r.name
  | _ => Query.nested r.dialect (r.outputList op) r.sql r.name none

def apply (r : Relation) (op : Operation) : Derived :=
  if op.acceptable r.dialect then
    .ok { r with
      columns := (r.outputList op).names
      sql := r.layer op
      depth := r.depth + 1
      operation := op.kind }
  else .error op.kind.rejection

def fingerprint (r : Relation) : UInt64 := Digest.ofText r.sql

end Relation

namespace Derived

/-- A rejection stays what it is. -/
def apply (x : Derived) (op : Operation) : Derived := x.bind fun r => r.apply op

/-- The relations that a sequence of operations leads to. -/
def applyAll (x : Derived) (ops : List Operation) : Derived := ops.foldl apply x

def isValid (x : Derived) : Bool := x.isOk

def columns (x : Derived) : List String :=
  match x with
  | .ok r => r.columns
  | .error _ => []

/-- The statement, or the reason why there is none. -/
def display (x : Derived) : String :=
  match x with
  | .ok r => r.sql
  | .error e => "invalid relation: " ++ e.message

end Derived

/-! ### Events -/

/-- What is reported about the result of an operation. -/
def Operation.outcome (op : Operation) : Derived → Event
  | .ok r => .compiledRelation op.kind r.columns.length r.depth
  | .error e => .rejectedOperation op.kind e

/-- Whether the operation shows the columns of the relation it is applied to. -/
def Operation.showsColumns : Operation → Bool
  | .setColumn .. | .dropColumn _ | .filter _ => true
  | .select _ | .groupBy _ | .deduplicate _ => false

namespace Relation

/-- What is reported when a reference to each of the columns is made. -/
def referenceEvents (d : Dialect) (columns : List String) : List Event :=
  columns.flatMap fun column => (Expr.column d column).events

/-- Applies an operation and reports its result. An accepted operation that shows the columns of the
relation makes a reference to each of them first. -/
def perform (r : Relation) (op : Operation) : Logged Derived :=
  ⟨r.apply op,
    (if op.acceptable r.dialect && op.showsColumns then referenceEvents r.dialect r.columns
      else []) ++ [op.outcome (r.apply op)]⟩

/-- Makes a base relation and reports it, or the illegal column that it fails at. -/
def load (d : Dialect) (s : TableSource) : Logged (Except BaseFault Relation) :=
  ⟨ofTable d s,
    match ofTable d s with
    | .ok r =>
      referenceEvents d s.columns ++ [.createdBase d (s.reference d) r.columns.length]
    | .error (.illegalColumn d column) => [.illegalIdentifier d column]
    | .error _ => []⟩

end Relation

end LayeredSql
