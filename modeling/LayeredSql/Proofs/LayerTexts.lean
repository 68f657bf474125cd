import LayeredSql.Proofs.ColumnChains
import LayeredSql.Proofs.Statements

/-!
# Layers told apart by their texts

A layer around a statement is rendered from its select list, the statement below, the name of the derived
table and a filter or grouping keys. Where the select list refers to columns, the text of the layer
determines these parts. The items are read name by name, and the keyword behind them is no name. The
statement below ends at the one parenthesis that closes the one in front of it, since reading a closed
text never closes more parentheses than it has opened; names and fragments inside it can hold any
parentheses in quotes. What is left behind the name of the derived table is the filter or the keys.
-/

namespace LayeredSql

open Fragment

namespace Fragment

theorem not_reads_append_close {d : Dialect} {xs : List Char} (h : Reads d 0 xs 0)
    (more : List Char) (k : Nat) : ¬Reads d 0 (xs ++ ')' :: more) k := by
  rintro ⟨t, ht, -, -⟩
  obtain ⟨s, hs, hr⟩ := run_append_eq_ok_iff.1 ht
  obtain ⟨u, hu, -⟩ := run_cons_eq_ok_iff.1 hr
  obtain ⟨s', hs', rests, depth⟩ := h
  cases hs.symm.trans hs'
  rw [step_of_rests rests (by decide) (by decide), depth] at hu
  cases hu

/-- Of two closed texts, none goes on behind a parenthesis that closes the other. -/
theorem eq_of_append_close {d : Dialect} {xs ys as bs : List Char} (hx : Reads d 0 xs 0)
    (hy : Reads d 0 ys 0) (h : xs ++ ')' :: as = ys ++ ')' :: bs) : xs = ys ∧ as = bs := by
  rcases List.append_eq_append_iff.1 h with ⟨more, rfl, rest⟩ | ⟨more, rfl, rest⟩
  · cases more with
    | nil => simpa using rest
    | cons c more =>
      cases (List.cons.inj rest).1
      exact absurd hy (not_reads_append_close hx more 0)
  · cases more with
    | nil => simpa [eq_comm] using rest
    | cons c more =>
      cases (List.cons.inj rest).1
      exact absurd hx (not_reads_append_close hy more 0)

end Fragment

/-! ### Layers of column references -/

/-- What a layer has behind its derived table. -/
inductive Layer.Ending where
  | filter (condition : Option Expr)
  | group (keys : List Expr)

def Layer.Ending.text : Ending → String
  | filter none => ""
  | filter (some e) => " WHERE " ++ e.text
  | group keys => if keys.isEmpty then "" else " GROUP BY " ++ Query.exprList keys

/-- The parts that a layer is rendered from, where its select list refers to columns. -/
structure Layer where
  items : List Item
  source : String
  name : String
  ending : Layer.Ending

namespace Layer

def list (d : Dialect) (x : Layer) : SelectList := ⟨x.items.map (Item.entry d)⟩

/-- The statement that the renderers make of the layer. -/
def sql (d : Dialect) (x : Layer) : String :=
  match x.ending with
  | .filter condition => Query.nested d (x.list d) x.source x.name condition
  | .group keys => Query.grouped d ⟨x.list d, keys⟩ x.source x.name

/-- The columns that the layer refers to are legal, and what it stands around is the statement of a
reached relation. Nothing is asked of the labels, of the name and of what follows it. -/
structure Admissible (d : Dialect) (x : Layer) : Prop where
  legal : ∀ item ∈ x.items, d.isLegal item.source = true
  reached : ∃ s ops r, Relation.Reached d s ops r ∧ r.sql = x.source

theorem sql_eq (d : Dialect) (x : Layer) :
    x.sql d = Query.selectClause d (x.list d) ++ " FROM " ++
      Query.derivedTable d x.source x.name ++ x.ending.text := by
  obtain ⟨items, source, name, ending⟩ := x
  cases ending with
  | filter condition => cases condition <;> rfl
  | group keys => rfl

theorem endsName_ending (d : Dialect) (ending : Ending) : d.EndsName ending.text.toList := by
  have keyword (word : String) (h : ∀ e ∈ Dialect.all, e.EndsName word.toList ∧ word.toList ≠ [])
      (rest : String) : d.EndsName (word ++ rest).toList := by
    rw [String.toList_append]
    exact d.endsName_word word h rest.toList
  cases ending with
  | filter condition =>
    cases condition with
    | none => exact d.endsName_nil
    | some e => exact keyword " WHERE " (by decide) e.text
  | group keys =>
    cases keys with
    | nil => exact d.endsName_nil
    | cons e es => exact keyword " GROUP BY " (by decide) (Query.exprList (e :: es))

section Admissible

variable {d : Dialect} {x y : Layer}

theorem Admissible.reads_source (h : x.Admissible d) : Reads d 0 x.source.toList 0 := by
  obtain ⟨s, ops, r, reached, sql⟩ := h.reached
  have reads := reached.reads_sql
  rw [reached.dialect_eq, sql] at reads
  exact reads

theorem Admissible.toList_sql (h : x.Admissible d) :
    (x.sql d).toList = (Query.selectItems (x.items.map (Item.text d)) ++ " FROM ").toList ++
      '(' :: (x.source.toList ++ ')' :: (" AS ".toList ++
        ((d.quote x.name).toList ++ x.ending.text.toList))) := by
  have clause : Query.selectClause d (x.list d) = Query.selectItems (x.items.map (Item.text d)) :=
    Item.selectItems_entry h.legal
  rw [sql_eq, clause, Query.derivedTable]
  simp

/-- Two layers with the same text have the same items, in the same order, around the same statement, the
same name for it and the same text behind it. -/
theorem parts_eq_of_sql_eq (hx : x.Admissible d) (hy : y.Admissible d) (h : x.sql d = y.sql d) :
    x.items = y.items ∧ x.source = y.source ∧ x.name = y.name ∧
      x.ending.text = y.ending.text := by
  have texts := congrArg String.toList h
  rw [hx.toList_sql, hy.toList_sql] at texts
  -- the select lists, by reading both
  have clauses := congrArg (Layers.readClause d) texts
  rw [Layers.readClause_selectItems, Layers.readClause_selectItems, Option.some.injEq,
    Prod.mk.injEq] at clauses
  obtain ⟨items, behind⟩ := clauses
  -- the statements below, by the parenthesis that closes them
  obtain ⟨source, rest⟩ := eq_of_append_close hx.reads_source hy.reads_source (List.cons.inj behind).2
  -- the names, by reading both
  have names := congrArg d.readName (List.append_cancel_left rest)
  rw [Dialect.readName_quote (endsName_ending d _), Dialect.readName_quote (endsName_ending d _),
    Option.some.injEq, Prod.mk.injEq] at names
  obtain ⟨name, ending⟩ := names
  exact ⟨items, String.toList_inj.1 source, name, String.toList_inj.1 ending⟩

/-- Names that hold commas, keywords and parentheses, over a statement with a parenthesis in a literal;
and keys that differ but are written alike. -/
theorem parts_eq_of_sql_eq_keywords :
    ∃ x y : Layer, x.Admissible .postgreSql ∧ y.Admissible .postgreSql ∧
      x.ending = .group [.ofColumn .postgreSql "a", .ofColumn .postgreSql "b"] ∧
      y.ending = .group [.ofFragment .postgreSql "a, b"] ∧ x.sql .postgreSql = y.sql .postgreSql ∧
      x.items = [⟨"from", "b) AS c, d"⟩, ⟨"a", "FROM ("⟩] ∧ x.name = "x) AS y" ∧
      x.items = y.items ∧ x.source = y.source ∧ x.name = y.name ∧
      x.ending.text = y.ending.text := by
  obtain ⟨r, hr⟩ : ∃ r, Relation.Reached .postgreSql ⟨"", "s", "t", "ds", ["a", "b", "from"]⟩
      [.filter (.ofFragment .postgreSql "a <> ') AS ds' AND (b > 0)")] r :=
    Relation.Reached.exists_of_acceptable (by decide +kernel) (by decide +kernel)
  have legal : ∀ item ∈ ([⟨"from", "b) AS c, d"⟩, ⟨"a", "FROM ("⟩] : List Item),
      Dialect.postgreSql.isLegal item.source = true := by
    decide +kernel
  have admissible (ending : Ending) : Admissible .postgreSql
      ⟨[⟨"from", "b) AS c, d"⟩, ⟨"a", "FROM ("⟩], r.sql, "x) AS y", ending⟩ :=
    ⟨legal, _, _, r, hr, rfl⟩
  have alike : Ending.text (.group [.ofColumn .postgreSql "a", .ofColumn .postgreSql "b"]) =
      Ending.text (.group [.ofFragment .postgreSql "a, b"]) := by
    decide +kernel
  have texts : sql .postgreSql ⟨[⟨"from", "b) AS c, d"⟩, ⟨"a", "FROM ("⟩], r.sql, "x) AS y",
      .group [.ofColumn .postgreSql "a", .ofColumn .postgreSql "b"]⟩ =
      sql .postgreSql ⟨[⟨"from", "b) AS c, d"⟩, ⟨"a", "FROM ("⟩], r.sql, "x) AS y",
        .group [.ofFragment .postgreSql "a, b"]⟩ := by
    rw [sql_eq, sql_eq, alike]
    rfl
  exact ⟨_, _, admissible _, admissible _, rfl, rfl, texts, rfl, rfl,
    parts_eq_of_sql_eq (admissible _) (admissible _) texts⟩

end Admissible

end Layer

end LayeredSql
