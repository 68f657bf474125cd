import LayeredSql.SelectList

/-! # Definitions of grouping and deduplication -/

namespace LayeredSql

/-- Which extreme of an expression comes first. -/
inductive Extreme where
  | min
  | max
deriving DecidableEq, Repr

namespace Extreme

def name : Extreme → String
  | min => "min"
  | max => "max"

/-- The ordering that puts the extreme first and missing values last. -/
def orderSql : Extreme → String
  | min => "ASC NULLS LAST"
  | max => "DESC NULLS LAST"

end Extreme

structure OrderItem where
  expr : Expr
  extreme : Extreme
deriving DecidableEq

/-- Groups the rows by `keys` and selects one row per group. -/
structure Grouping where
  select : SelectList
  keys : List Expr
deriving DecidableEq

/-- Keeps one row for each value of `keys`: the first in the given order. -/
structure Deduplication where
  select : SelectList
  keys : List Expr
  order : List OrderItem
deriving DecidableEq

def Grouping.expressions (g : Grouping) : List Expr := g.select.expressions ++ g.keys

def Deduplication.expressions (u : Deduplication) : List Expr :=
  u.select.expressions ++ u.keys ++ u.order.map OrderItem.expr

end LayeredSql
