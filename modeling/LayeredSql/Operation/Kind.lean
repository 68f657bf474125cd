/-! # Kinds of operation -/

namespace LayeredSql

/-- How a relation came to be: read from a table, or derived by one operation. -/
inductive OperationKind where
  | base
  | setColumn
  | dropColumn
  | select
  | filter
  | groupBy
  | deduplicate
deriving DecidableEq, Repr

def OperationKind.name : OperationKind → String
  | base => "base"
  | setColumn => "set_column"
  | dropColumn => "drop_column"
  | select => "select"
  | filter => "filter"
  | groupBy => "group_by"
  | deduplicate => "deduplicate"

end LayeredSql
