import LayeredSql.Definition

/-! # Operations

What can be done to a relation. Whether an operation is acceptable depends on the dialect and on the
operation alone, not on the relation that it is applied to. -/

namespace LayeredSql

inductive Operation where
  /-- Gives the column of that name the value, or adds it. -/
  | setColumn (name : String) (value : Expr)
  /-- Removes the column of that name if there is one. -/
  | dropColumn (name : String)
  | select (columns : SelectList)
  | filter (condition : Expr)
  | groupBy (grouping : Grouping)
  | deduplicate (deduplication : Deduplication)
deriving DecidableEq

namespace Operation

def kind : Operation → OperationKind
  | setColumn .. => .setColumn
  | dropColumn _ => .dropColumn
  | select _ => .select
  | filter _ => .filter
  | groupBy _ => .groupBy
  | deduplicate _ => .deduplicate

/-- All expressions are supported, and the names can be columns together. -/
def acceptableList (d : Dialect) (expressions : List Expr) (names : List String) : Bool :=
  expressions.all (Expr.supportedBy d) && d.acceptsColumns names

def acceptable (d : Dialect) : Operation → Bool
  | setColumn name value => value.supportedBy d && d.isLegal name
  | dropColumn _ => true
  | select columns => acceptableList d columns.expressions columns.names
  | filter condition => condition.supportedBy d
  | groupBy grouping => acceptableList d grouping.expressions grouping.select.names
  | deduplicate deduplication =>
    acceptableList d deduplication.expressions deduplication.select.names

end Operation

end LayeredSql
