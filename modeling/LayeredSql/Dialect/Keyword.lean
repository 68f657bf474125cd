import LayeredSql.Dialect.Basic

/-! # Reserved words

The words that each dialect does not accept as a bare identifier, and their lookup. The tables are
in ascending order and in capitals, so a word is found by halving the table for its ASCII capital
form. -/

namespace LayeredSql

def bigQueryKeywords : Array String :=
  #[
    "ALL", "AND", "ANY", "ARRAY", "AS", "ASC", "ASSERT_ROWS_MODIFIED", "AT", "BETWEEN", "BY",
    "CASE", "CAST", "COLLATE", "CONTAINS", "CREATE", "CROSS", "CUBE", "CURRENT", "DEFAULT",
    "DEFINE", "DESC", "DISTINCT", "ELSE", "END", "ENUM", "ESCAPE", "EXCEPT", "EXCLUDE", "EXISTS",
    "EXTRACT", "FALSE", "FETCH", "FOLLOWING", "FOR", "FROM", "FULL", "GROUP", "GROUPING",
    "GROUPS", "HASH", "HAVING", "IF", "IGNORE", "IN", "INNER", "INTERSECT", "INTERVAL", "INTO",
    "IS", "JOIN", "LATERAL", "LEFT", "LIKE", "LIMIT", "LOOKUP", "MERGE", "NATURAL", "NEW", "NO",
    "NOT", "NULL", "NULLS", "OF", "ON", "OR", "ORDER", "OUTER", "OVER", "PARTITION", "PRECEDING",
    "PROTO", "QUALIFY", "RANGE", "RECURSIVE", "RESPECT", "RIGHT", "ROLLUP", "ROWS", "SELECT",
    "SET", "SOME", "STRUCT", "TABLESAMPLE", "THEN", "TO", "TREAT", "TRUE", "UNBOUNDED", "UNION",
    "UNNEST", "USING", "WHEN", "WHERE", "WINDOW", "WITH", "WITHIN"
  ]

def postgreSqlKeywords : Array String :=
  #[
    "ALL", "ANALYSE", "ANALYZE", "AND", "ANY", "ARRAY", "AS", "ASC", "ASYMMETRIC", "BOTH", "CASE",
    "CAST", "CHECK", "COLLATE", "COLUMN", "CONSTRAINT", "CREATE", "CURRENT_CATALOG",
    "CURRENT_DATE", "CURRENT_ROLE", "CURRENT_TIME", "CURRENT_TIMESTAMP", "CURRENT_USER",
    "DEFAULT", "DEFERRABLE", "DESC", "DISTINCT", "DO", "ELSE", "END", "EXCEPT", "FALSE", "FETCH",
    "FOR", "FOREIGN", "FROM", "GRANT", "GROUP", "HAVING", "IN", "INITIALLY", "INTERSECT", "INTO",
    "LATERAL", "LEADING", "LIMIT", "LOCALTIME", "LOCALTIMESTAMP", "NOT", "NULL", "OFFSET", "ON",
    "ONLY", "OR", "ORDER", "PLACING", "PRIMARY", "REFERENCES", "RETURNING", "SELECT",
    "SESSION_USER", "SOME", "SYMMETRIC", "SYSTEM_USER", "TABLE", "THEN", "TO", "TRAILING", "TRUE",
    "UNION", "UNIQUE", "USER", "USING", "VARIADIC", "WHEN", "WHERE", "WINDOW", "WITH"
  ]

namespace Dialect

def keywords : Dialect → Array String
  | bigQuery => bigQueryKeywords
  | postgreSql => postgreSqlKeywords

/-- Looks for `word` among the entries of the ascending `table` from `low` up to, not including,
`high`. -/
def searchSorted (table : Array String) (word : String) (low high : Nat) : Bool :=
  if low < high then
    let middle := (low + high) / 2
    match table[middle]? with
    | none => false
    | some entry =>
      if entry = word then true
      else if entry < word then searchSorted table word (middle + 1) high
      else searchSorted table word low middle
  else false
termination_by high - low

/-- A word is reserved in any mix of ASCII cases. -/
def isReserved (d : Dialect) (word : String) : Bool :=
  searchSorted d.keywords (word.map Char.toUpper) 0 d.keywords.size

/-- What the search finds is in the table, whether or not this is in order. -/
theorem mem_of_searchSorted {table : Array String} {word : String} {low high : Nat}
    (h : searchSorted table word low high = true) : word ∈ table := by
  fun_induction searchSorted table word low high with
  | case1 => cases h
  | case2 low high bounds middle found => exact Array.mem_of_getElem? found
  | case3 low high bounds middle entry found other below ih => exact ih h
  | case4 low high bounds middle entry found other above ih => exact ih h
  | case5 => cases h

theorem mem_keywords_of_isReserved {d : Dialect} {word : String} (h : d.isReserved word = true) :
    word.map Char.toUpper ∈ d.keywords :=
  mem_of_searchSorted h

end Dialect

end LayeredSql
