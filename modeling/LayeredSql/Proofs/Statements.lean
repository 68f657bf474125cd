import LayeredSql.Proofs.Columns
import LayeredSql.Proofs.Reading

/-!
# Statements are lexically closed

Every statement of a reached relation is read by the lexical machine of its dialect from beginning to
end, and the reading ends outside quoted text with all parentheses closed. Each renderer is a chain
of closed pieces with keywords between them; the inner statement is one of the pieces, which is where
the induction over the operations comes in.
-/

namespace LayeredSql

open Fragment

namespace Query

theorem reads_intercalate {d : Dialect} {n : Nat} {c : Char} {sep : List Char}
    (hs : Clears d n (c :: sep) n) (hj : Joins (c :: sep)) (items : List (List Char))
    (h : ∀ item ∈ items, Reads d n item n) : Reads d n ((c :: sep).intercalate items) n := by
  induction items with
  | nil => exact (clears_nil d n).reads
  | cons item rest ih =>
    have hi := h item (by simp)
    have hr := ih fun x hx => h x (by simp [hx])
    cases rest with
    | nil =>
      rw [List.intercalate_singleton]
      exact hi
    | cons next more =>
      rw [List.intercalate_cons_cons, List.append_assoc]
      have joined : Clears d n (item ++ c :: sep) n := hi.clears_append hs hj
      rw [← List.append_assoc]
      exact joined.reads_append hr

theorem reads_commaList {d : Dialect} {n : Nat} (items : List String)
    (h : ∀ item ∈ items, Reads d n item.toList n) : Reads d n (commaList items).toList n := by
  have comma : Clears d n [',', ' '] n := clears_of_not_significant d n _ (by decide)
  rw [commaList, String.toList_intercalate]
  refine reads_intercalate comma (by decide) _ ?_
  intro item hi
  obtain ⟨text, ht, rfl⟩ := List.mem_map.1 hi
  exact h text ht

theorem reads_aliased {d : Dialect} {n : Nat} {text : String} (label : String)
    (h : Reads d n text.toList n) : Reads d n (aliased d text label).toList n := by
  have keyword : Clears d n " AS ".toList n := clears_of_not_significant d n _ (by decide)
  rw [aliased, String.toList_append, String.toList_append]
  have named : Clears d n (text.toList ++ " AS ".toList) n := h.clears_append keyword (by decide)
  exact named.reads_append (reads_quote d n label)

theorem reads_selectItems {d : Dialect} {n : Nat} (items : List String)
    (h : ∀ item ∈ items, Reads d n item.toList n) : Reads d n (selectItems items).toList n := by
  unfold selectItems
  split
  · exact (clears_of_not_significant d n _ (by decide)).reads
  · have keyword : Clears d n "SELECT ".toList n := clears_of_not_significant d n _ (by decide)
    rw [String.toList_append]
    exact keyword.reads_append (reads_commaList items h)

theorem reads_entryItems {d : Dialect} {n : Nat} {entries : List (String × Expr)}
    (h : ∀ entry ∈ entries, entry.2.supportedBy d = true) :
    ∀ item ∈ entries.map (entryItem d), Reads d n item.toList n := by
  intro item hi
  obtain ⟨entry, he, rfl⟩ := List.mem_map.1 hi
  exact reads_aliased entry.1 (reads_of_supportedBy (h entry he) n)

theorem reads_selectClause {d : Dialect} {n : Nat} {l : SelectList}
    (h : ∀ entry ∈ l.entries, entry.2.supportedBy d = true) :
    Reads d n (selectClause d l).toList n :=
  reads_selectItems _ (reads_entryItems h)

theorem reads_exprList {d : Dialect} {n : Nat} {es : List Expr}
    (h : ∀ e ∈ es, e.supportedBy d = true) : Reads d n (exprList es).toList n := by
  refine reads_commaList _ ?_
  intro item hi
  obtain ⟨e, he, rfl⟩ := List.mem_map.1 hi
  exact reads_of_supportedBy (h e he) n

/-- The parentheses around the inner statement are the ones that its own reading leaves alone. -/
theorem reads_derivedTable {d : Dialect} {n : Nat} {source : String} (name : String)
    (h : Reads d 0 source.toList 0) : Reads d n (derivedTable d source name).toList n := by
  have inner : Reads d (n + 1) source.toList (n + 1) := by simpa using h.deeper (n + 1)
  have keyword : Clears d n " AS ".toList n := clears_of_not_significant d n _ (by decide)
  have close : Clears d (n + 1) (')' :: " AS ".toList) n := (clears_close d n).append keyword
  have body : Reads d n ('(' :: source.toList) (n + 1) := (clears_open d n).reads_append inner
  have closed : Clears d n ('(' :: source.toList ++ ')' :: " AS ".toList) n :=
    body.clears_append close (by decide)
  have whole := closed.reads_append (reads_quote d n name)
  simpa [derivedTable] using whole

theorem clears_from {d : Dialect} {n : Nat} {clause : String} (hc : Reads d n clause.toList n) :
    Clears d n (clause ++ " FROM ").toList n := by
  have keyword : Clears d n " FROM ".toList n := clears_of_not_significant d n _ (by decide)
  rw [String.toList_append]
  exact hc.clears_append keyword (by decide)

/-- What all layers have in common: a select clause over the inner statement. -/
theorem reads_from {d : Dialect} {n : Nat} {clause table : String}
    (hc : Reads d n clause.toList n) (ht : Reads d n table.toList n) :
    Reads d n (clause ++ " FROM " ++ table).toList n := by
  rw [String.toList_append]
  exact (clears_from hc).reads_append ht

theorem reads_ofTable {d : Dialect} {l : SelectList} (project dataset table : String)
    (h : ∀ entry ∈ l.entries, entry.2.supportedBy d = true) :
    Reads d 0 (ofTable d l (d.tableReference project dataset table)).toList 0 :=
  reads_from (reads_selectClause h) (reads_tableReference d 0 project dataset table)

theorem reads_nested {d : Dialect} {l : SelectList} {source : String} (name : String)
    {condition : Option Expr} (hl : ∀ entry ∈ l.entries, entry.2.supportedBy d = true)
    (hc : ∀ e ∈ condition, e.supportedBy d = true) (hs : Reads d 0 source.toList 0) :
    Reads d 0 (nested d l source name condition).toList 0 := by
  have base := reads_from (reads_selectClause hl) (reads_derivedTable (n := 0) name hs)
  unfold nested
  rw [String.toList_append]
  cases condition with
  | none =>
    show Reads d 0 (_ ++ "".toList) 0
    rw [String.toList_empty, List.append_nil]
    exact base
  | some e =>
    have keyword : Clears d 0 " WHERE ".toList 0 := clears_of_not_significant d 0 _ (by decide)
    have tail := keyword.reads_append (reads_of_supportedBy (hc e rfl) 0)
    rw [← String.toList_append] at tail
    refine base.append tail ?_
    rw [String.toList_append]
    exact ⟨nofun, nofun⟩

theorem reads_grouped {d : Dialect} {g : Grouping} {source : String} (name : String)
    (h : ∀ e ∈ g.expressions, e.supportedBy d = true) (hs : Reads d 0 source.toList 0) :
    Reads d 0 (grouped d g source name).toList 0 := by
  have entries : ∀ entry ∈ g.select.entries, entry.2.supportedBy d = true := by
    intro entry he
    exact h entry.2 (List.mem_append_left _ (List.mem_map_of_mem he))
  have keys : ∀ e ∈ g.keys, e.supportedBy d = true := by
    intro e he
    exact h e (List.mem_append_right _ he)
  have base := reads_from (reads_selectClause entries) (reads_derivedTable (n := 0) name hs)
  rw [grouped, String.toList_append]
  split
  · rw [String.toList_empty, List.append_nil]
    exact base
  · have keyword : Clears d 0 " GROUP BY ".toList 0 := clears_of_not_significant d 0 _ (by decide)
    have tail := keyword.reads_append (reads_exprList keys)
    rw [← String.toList_append] at tail
    refine base.append tail ?_
    rw [String.toList_append]
    exact ⟨nofun, nofun⟩

/-! ### Deduplication -/

theorem reads_orderItem {d : Dialect} {n : Nat} {item : OrderItem}
    (h : item.expr.supportedBy d = true) : Reads d n (orderItem item).toList n := by
  have direction : Clears d n (' ' :: item.extreme.orderSql.toList) n := by
    refine clears_of_not_significant d n _ ?_
    cases item.extreme <;> decide
  have whole := (reads_of_supportedBy h n).clears_append direction (by simp [Joins])
  simpa [orderItem] using whole.reads

theorem reads_windowSpec {d : Dialect} {n : Nat} {u : Deduplication}
    (h : ∀ e ∈ u.expressions, e.supportedBy d = true) : Reads d n (windowSpec u).toList n := by
  have space : Clears d n [' '] n := clears_of_not_significant d n _ (by decide)
  rw [windowSpec, String.toList_intercalate]
  refine reads_intercalate space (by decide) _ ?_
  intro part hp
  obtain ⟨text, ht, rfl⟩ := List.mem_map.1 hp
  rcases List.mem_append.1 ht with ht | ht
  · split at ht
    · cases ht
    · rw [List.mem_singleton.1 ht, String.toList_append]
      have keyword : Clears d n "PARTITION BY ".toList n :=
        clears_of_not_significant d n _ (by decide)
      refine keyword.reads_append (reads_exprList ?_)
      intro e he
      exact h e (List.mem_append_left _ (List.mem_append_right _ he))
  · split at ht
    · cases ht
    · rw [List.mem_singleton.1 ht, String.toList_append]
      have keyword : Clears d n "ORDER BY ".toList n := clears_of_not_significant d n _ (by decide)
      refine keyword.reads_append (reads_commaList _ ?_)
      intro item hi
      obtain ⟨order, ho, rfl⟩ := List.mem_map.1 hi
      exact reads_orderItem (h order.expr (List.mem_append_right _ (List.mem_map_of_mem ho)))

theorem reads_ranking {d : Dialect} {n : Nat} {u : Deduplication} (number : String)
    (h : ∀ e ∈ u.expressions, e.supportedBy d = true) (hn : Reads d n number.toList n) :
    Reads d n ("ROW_NUMBER() OVER (" ++ windowSpec u ++ ") AS " ++ number).toList n := by
  have word : Clears d n "ROW_NUMBER".toList n := clears_of_not_significant d n _ (by decide)
  have window : Clears d n " OVER ".toList n := clears_of_not_significant d n _ (by decide)
  have keyword : Clears d n " AS ".toList n := clears_of_not_significant d n _ (by decide)
  have call : Clears d n ("ROW_NUMBER".toList ++ ['('] ++ [')'] ++ " OVER ".toList ++ ['(']) (n + 1) :=
    (((word.append (clears_open d n)).append (clears_close d n)).append window).append
      (clears_open d n)
  have close : Clears d (n + 1) (')' :: " AS ".toList) n := (clears_close d n).append keyword
  have ranked := (call.reads_append (reads_windowSpec (n := n + 1) h)).clears_append close
    (by decide)
  have whole := ranked.reads_append hn
  have text : ("ROW_NUMBER() OVER (" ++ windowSpec u ++ ") AS " ++ number).toList =
      "ROW_NUMBER".toList ++ ['('] ++ [')'] ++ " OVER ".toList ++ ['('] ++ (windowSpec u).toList ++
        ')' :: " AS ".toList ++ number.toList := by
    simp only [String.toList_append]
    rfl
  rw [text]
  exact whole

/-- The select clause of the layer that numbers the rows. -/
theorem reads_rankedClause {d : Dialect} {n : Nat} {u : Deduplication} (source name : String)
    (h : ∀ e ∈ u.expressions, e.supportedBy d = true) :
    Reads d n (selectItems (u.select.entries.map (entryItem d) ++
      ["ROW_NUMBER() OVER (" ++ windowSpec u ++ ") AS " ++
        d.quote (rankingColumn u source name)])).toList n := by
  refine reads_selectItems _ ?_
  intro item hi
  rcases List.mem_append.1 hi with hi | hi
  · refine reads_entryItems ?_ item hi
    intro entry he
    exact h entry.2 (List.mem_append_left _ (List.mem_append_left _ (List.mem_map_of_mem he)))
  · rw [List.mem_singleton.1 hi]
    exact reads_ranking _ h (reads_quote d n (rankingColumn u source name))

theorem reads_labelClause (d : Dialect) (n : Nat) (labels : List String) :
    Reads d n (selectItems (labels.map fun label => aliased d (d.quote label) label)).toList n := by
  refine reads_selectItems _ ?_
  intro item hi
  obtain ⟨label, -, rfl⟩ := List.mem_map.1 hi
  exact reads_aliased label (reads_quote d n label)

theorem reads_deduplicated {d : Dialect} {u : Deduplication} {source : String} (name : String)
    (h : ∀ e ∈ u.expressions, e.supportedBy d = true) (hs : Reads d 0 source.toList 0) :
    Reads d 0 (deduplicated d u source name).toList 0 := by
  have number := reads_quote d 0 (rankingColumn u source name)
  have inner := reads_from (reads_rankedClause source name h) (reads_derivedTable (n := 0) name hs)
  have outer := reads_from (reads_labelClause d 0 u.select.names)
    (reads_derivedTable (n := 0) name inner)
  have keyword : Clears d 0 " WHERE ".toList 0 := clears_of_not_significant d 0 _ (by decide)
  have first : Clears d 0 " = 1".toList 0 := clears_of_not_significant d 0 _ (by decide)
  have filtered := (outer.clears_append keyword (by decide)).reads_append number
  have whole := filtered.clears_append first (by decide)
  simp only [deduplicated, String.toList_append] at whole ⊢
  exact whole.reads

end Query

/-! ### Relations -/

namespace Relation

theorem supportedBy_of_acceptableList {d : Dialect} {es : List Expr} {names : List String}
    (h : Operation.acceptableList d es names = true) : ∀ e ∈ es, e.supportedBy d = true := by
  simp only [Operation.acceptableList, Bool.and_eq_true, List.all_eq_true] at h
  exact h.1

/-- The expressions of the outermost select list were handed over and checked, or refer to columns
that are legal. -/
theorem supportedBy_outputList {r : Relation} {op : Operation}
    (h : r.dialect.acceptsColumns r.columns = true) (ha : op.acceptable r.dialect = true) :
    ∀ entry ∈ (r.outputList op).entries, entry.2.supportedBy r.dialect = true := by
  have own := supportedBy_reference h
  cases op with
  | setColumn name value =>
    simp only [Operation.acceptable, Bool.and_eq_true] at ha
    cases hn : r.column? name with
    | none =>
      rw [entries_setColumn_of_none value h hn]
      intro entry he
      rcases List.mem_append.1 he with he | he
      · exact own entry he
      · rw [List.mem_singleton.1 he]
        exact ha.1
    | some column =>
      obtain ⟨front, back, split, -, entries⟩ := entries_setColumn_of_some value h hn
      rw [split, List.map_append, List.map_cons] at own
      rw [entries]
      intro entry he
      rcases List.mem_append.1 he with he | he
      · exact own entry (List.mem_append_left _ he)
      · rcases List.mem_cons.1 he with he | he
        · rw [he]
          exact ha.1
        · exact own entry (List.mem_append_right _ (List.mem_cons_of_mem _ he))
  | dropColumn name =>
    rw [entries_dropColumn name h]
    intro entry he
    obtain ⟨column, hc, rfl⟩ := List.mem_map.1 he
    exact own _ (List.mem_map_of_mem (List.mem_filter.1 hc).1)
  | select columns =>
    intro entry he
    exact supportedBy_of_acceptableList ha entry.2 (List.mem_map_of_mem he)
  | filter condition =>
    show ∀ entry ∈ r.selected.entries, _
    rw [entries_selected h]
    exact own
  | groupBy grouping =>
    intro entry he
    exact supportedBy_of_acceptableList ha entry.2
      (List.mem_append_left _ (List.mem_map_of_mem he))
  | deduplicate deduplication =>
    intro entry he
    exact supportedBy_of_acceptableList ha entry.2
      (List.mem_append_left _ (List.mem_append_left _ (List.mem_map_of_mem he)))

theorem reads_layer {r : Relation} {op : Operation}
    (h : r.dialect.acceptsColumns r.columns = true) (ha : op.acceptable r.dialect = true)
    (hs : Reads r.dialect 0 r.sql.toList 0) : Reads r.dialect 0 (r.layer op).toList 0 := by
  have entries := supportedBy_outputList h ha
  cases op with
  | setColumn name value => exact Query.reads_nested r.name entries nofun hs
  | dropColumn name => exact Query.reads_nested r.name entries nofun hs
  | select columns => exact Query.reads_nested r.name entries nofun hs
  | filter condition =>
    refine Query.reads_nested r.name entries ?_ hs
    intro e he
    cases he
    exact ha
  | groupBy grouping => exact Query.reads_grouped r.name (supportedBy_of_acceptableList ha) hs
  | deduplicate deduplication =>
    exact Query.reads_deduplicated r.name (supportedBy_of_acceptableList ha) hs

namespace Reached

variable {d : Dialect} {s : TableSource} {ops : List Operation} {r : Relation}

theorem reads_sql (h : Reached d s ops r) : Reads r.dialect 0 r.sql.toList 0 := by
  have both : r.dialect.acceptsColumns r.columns = true ∧ Reads r.dialect 0 r.sql.toList 0 := by
    refine h.invariant (P := fun q => q.dialect.acceptsColumns q.columns = true ∧
      Reads q.dialect 0 q.sql.toList 0) ?_ ?_
    · intro q hq
      have columns := (nil_iff.2 hq).acceptsColumns
      obtain ⟨fault, rfl⟩ := (ofTable_eq_ok_iff d s q).1 hq
      have accepted := TableSource.acceptsColumns_of_fault_eq_none fault
      refine ⟨columns, Query.reads_ofTable s.project s.dataset s.table ?_⟩
      rw [entries_selectColumns (Dialect.nodup_of_acceptsColumns accepted)]
      exact supportedBy_reference accepted
    · rintro q op t ⟨columns, sql⟩ happ
      obtain ⟨ha, rfl⟩ := (apply_eq_ok_iff q op t).1 happ
      have layer := reads_layer columns ha sql
      exact ⟨acceptsColumns_outputList columns ha, layer⟩
  exact both.2

/-- The machine reads the statement of a reached relation without a problem and ends outside quoted
text and outside all parentheses. -/
theorem sql_lexically_closed (h : Reached d s ops r) :
    ∃ t, run d .start r.sql.toList = .ok t ∧ t.mode.isOutside = true ∧ t.depth = 0 := by
  obtain ⟨t, ht, rests, depth⟩ := h.reads_sql
  rw [h.dialect_eq] at ht
  exact ⟨t, ht, rests.1, depth⟩

/-- Signs of comments, quotes and parentheses in names, and operators that end where another text
begins. -/
theorem sql_lexically_closed_signs :
    ∃ r, Reached .postgreSql ⟨"", "my\"schema", "t\"(--;", "the rows", ["id", "Na\"me"]⟩
        [.filter (.ofFragment .postgreSql "id /"),
          .setColumn "x" (.ofFragment .postgreSql "'it''s' <> id -")] r ∧
      ∃ t, run .postgreSql .start r.sql.toList = .ok t ∧ t.mode.isOutside = true ∧ t.depth = 0 := by
  have reached : Reached .postgreSql
      ⟨"", "my\"schema", "t\"(--;", "the rows", ["id", "Na\"me"]⟩
      [.filter (.ofFragment .postgreSql "id /"),
        .setColumn "x" (.ofFragment .postgreSql "'it''s' <> id -")]
      ⟨.postgreSql, "t\"(--;", "the rows", ["id", "Na\"me", "x"],
        "SELECT id AS id, \"Na\"\"me\" AS \"Na\"\"me\", 'it''s' <> id - AS x FROM " ++
          "(SELECT id AS id, \"Na\"\"me\" AS \"Na\"\"me\" FROM " ++
          "(SELECT id AS id, \"Na\"\"me\" AS \"Na\"\"me\" FROM \"my\"\"schema\".\"t\"\"(--;\") " ++
          "AS \"the rows\" WHERE id /) AS \"the rows\"", 2, .setColumn⟩ := by
    decide +kernel
  exact ⟨_, reached, reached.sql_lexically_closed⟩

end Reached

end Relation

end LayeredSql
