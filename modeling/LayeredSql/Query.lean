import LayeredSql.Definition
import LayeredSql.Digest

/-! # Statements

The texts of the statements that relations stand for: a selection from a stored table, and the
layers put around a statement. A layer reads the inner statement as a derived table under the name
of the dataset. Nothing is checked here. -/

namespace LayeredSql.Query

def commaList (items : List String) : String := ", ".intercalate items

/-- One item of a select list. -/
def aliased (d : Dialect) (text label : String) : String := text ++ " AS " ++ d.quote label

/-- A select clause without items is the bare keyword. -/
def selectItems (items : List String) : String :=
  if items.isEmpty then "SELECT" else "SELECT " ++ commaList items

theorem selectItems_of_ne_nil {items : List String} (h : items ≠ []) :
    selectItems items = "SELECT " ++ ", ".intercalate items := by
  rw [selectItems, if_neg (by simpa using h)]
  rfl

def entryItem (d : Dialect) (entry : String × Expr) : String := aliased d entry.2.text entry.1

def selectClause (d : Dialect) (l : SelectList) : String :=
  selectItems (l.entries.map (entryItem d))

/-- The inner statement as a table named after the dataset. -/
def derivedTable (d : Dialect) (source name : String) : String :=
  "(" ++ source ++ ") AS " ++ d.quote name

def exprList (es : List Expr) : String := commaList (es.map Expr.text)

/-- Selection from a stored table. -/
def ofTable (d : Dialect) (l : SelectList) (table : String) : String :=
  selectClause d l ++ " FROM " ++ table

/-- A layer that selects from the inner statement, keeping the rows that meet the condition. -/
def nested (d : Dialect) (l : SelectList) (source name : String) (condition : Option Expr) :
    String :=
  selectClause d l ++ " FROM " ++ derivedTable d source name ++
    match condition with
    | none => ""
    | some e => " WHERE " ++ e.text

/-- A layer that groups the inner statement. -/
def grouped (d : Dialect) (g : Grouping) (source name : String) : String :=
  selectClause d g.select ++ " FROM " ++ derivedTable d source name ++
    if g.keys.isEmpty then "" else " GROUP BY " ++ exprList g.keys

/-! ### Deduplication -/

def rankingBase (source name : String) : String :=
  "__rn_" ++ Digest.hex (Digest.ofParts [source, name])

/-- The names tried for the ranking column: the base name, then the base name with a number. One of
them is free, since there are more of them than there are output names. -/
def rankingCandidates (base : String) (count : Nat) : List String :=
  base :: (List.range' 1 count).map fun n => base ++ "_" ++ toString n

/-- The first candidate that is no output name in any ASCII case. -/
def rankingColumn (u : Deduplication) (source name : String) : String :=
  let base := rankingBase source name
  let isFree := fun candidate => !u.select.names.any fun n => Text.eqIgnoringAsciiCase n candidate
  ((rankingCandidates base u.select.length).find? isFree).getD base

def orderItem (item : OrderItem) : String := item.expr.text ++ " " ++ item.extreme.orderSql

/-- The window over which rows are numbered. -/
def windowSpec (u : Deduplication) : String :=
  let partitions := if u.keys.isEmpty then [] else ["PARTITION BY " ++ exprList u.keys]
  let orders := if u.order.isEmpty then [] else ["ORDER BY " ++ commaList (u.order.map orderItem)]
  " ".intercalate (partitions ++ orders)

/-- Two layers: the inner numbers the rows of each window, the outer keeps the first of each. -/
def deduplicated (d : Dialect) (u : Deduplication) (source name : String) : String :=
  let number := d.quote (rankingColumn u source name)
  let ranking := "ROW_NUMBER() OVER (" ++ windowSpec u ++ ") AS " ++ number
  let inner := selectItems (u.select.entries.map (entryItem d) ++ [ranking]) ++ " FROM " ++
    derivedTable d source name
  selectItems (u.select.names.map fun label => aliased d (d.quote label) label) ++ " FROM " ++
    derivedTable d inner name ++ " WHERE " ++ number ++ " = 1"

end LayeredSql.Query
