import LayeredSql.Definition

/-! # Plans

A plan says which table to read and which steps to take, before anything is written for a dialect.
-/

namespace LayeredSql

/-- An expression as a plan gives it: a column by name, or a fragment of SQL. -/
inductive Term where
  | column (name : String)
  | sql (text : String)
deriving DecidableEq, Repr

structure NamedTerm where
  name : String
  term : Term
deriving DecidableEq, Repr

structure OrderTerm where
  term : Term
  extreme : Extreme
deriving DecidableEq, Repr

/-- The table to read. A project or dataset that is missing here is taken from the configuration. -/
structure PlanSource where
  project : Option String
  dataset : Option String
  table : String
  name : String
  columns : List String
deriving DecidableEq, Repr

inductive Step where
  | setColumn (name : String) (value : Term)
  | dropColumn (name : String)
  | select (columns : List NamedTerm)
  | filter (condition : Term)
  | groupBy (select : List NamedTerm) (keys : List Term)
  | deduplicate (select : List NamedTerm) (keys : List Term) (order : List OrderTerm)
deriving DecidableEq, Repr

structure Plan where
  source : PlanSource
  steps : List Step
deriving DecidableEq, Repr

end LayeredSql
