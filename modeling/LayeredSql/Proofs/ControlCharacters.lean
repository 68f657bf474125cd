import LayeredSql.Proofs.OutputItems
import LayeredSql.Proofs.RankingColumn
import LayeredSql.Proofs.StepResolution

/-!
# Control characters in statements

Keywords, legal names and the names of ranking columns hold no control characters. So a control
character gets into a statement in two ways only: in the name of the stored table, which is quoted but
not otherwise looked at, and in the text of an expression. Either way it stays there through all later
layers.
-/

namespace LayeredSql

/-- The character does not stand in the text. -/
def Lacks (c : Char) (text : String) : Prop := c ∉ text.toList

instance (c : Char) (text : String) : Decidable (Lacks c text) := inferInstanceAs (Decidable (¬_))

@[simp] theorem lacks_append_iff (c : Char) (a b : String) :
    Lacks c (a ++ b) ↔ Lacks c a ∧ Lacks c b := by
  simp only [Lacks, String.toList_append, List.mem_append, not_or]

theorem lacks_intercalate_iff {c : Char} {sep : String} (hs : Lacks c sep) (items : List String) :
    Lacks c (sep.intercalate items) ↔ ∀ item ∈ items, Lacks c item := by
  simp only [Lacks, String.toList_intercalate] at hs ⊢
  induction items with
  | nil => simp
  | cons item rest ih =>
    cases rest with
    | nil => simp
    | cons next more =>
      rw [List.forall_mem_cons, ← ih, List.map_cons, List.map_cons, List.intercalate_cons_cons]
      simp only [List.mem_append, not_or, hs, not_false_eq_true, and_true]

section Control

variable {c : Char}

theorem lacks_of_printable (hc : Text.isControl c = true) (text : String)
    (h : text.toList.any Text.isControl = false) : Lacks c text :=
  fun hm => List.any_eq_false.1 h c hm hc

theorem lacks_of_isLegal (hc : Text.isControl c = true) {d : Dialect} {name : String}
    (h : d.isLegal name = true) : Lacks c name := by
  simp only [Dialect.isLegal, Bool.and_eq_true, Bool.not_eq_true'] at h
  exact lacks_of_printable hc name h.2

/-! ### Names -/

theorem mem_escapeChar_iff (hc : Text.isControl c = true) (d : Dialect) (x : Char) :
    c ∈ d.escapeChar x ↔ c = x := by
  have backslash : c ≠ '\\' := by rintro rfl; cases hc
  have double : c ≠ '"' := by rintro rfl; cases hc
  cases d with
  | bigQuery =>
    simp only [Dialect.escapeChar]
    split <;> simp [backslash]
  | postgreSql =>
    simp only [Dialect.escapeChar]
    split
    · rename_i hx
      simp [hx, double]
    · simp

theorem lacks_escape_iff (hc : Text.isControl c = true) (d : Dialect) (name : String) :
    Lacks c (d.escape name) ↔ Lacks c name := by
  simp only [Lacks, Dialect.escape, String.toList_ofList, List.mem_flatMap, mem_escapeChar_iff hc,
    exists_eq_right']

theorem lacks_enclose_iff (hc : Text.isControl c = true) (d : Dialect) (escaped : String) :
    Lacks c (d.enclose escaped) ↔ Lacks c escaped := by
  have quote : Lacks c (String.singleton d.identifierQuote) := by
    cases d <;> exact lacks_of_printable hc _ (by decide)
  rw [Dialect.enclose, lacks_append_iff, lacks_append_iff, and_iff_left quote, and_iff_right quote]

theorem lacks_quote_iff (hc : Text.isControl c = true) (d : Dialect) (name : String) :
    Lacks c (d.quote name) ↔ Lacks c name := by
  unfold Dialect.quote
  split
  · rw [Dialect.forceQuote, lacks_enclose_iff hc, lacks_escape_iff hc]
  · exact Iff.rfl

theorem lacks_quote_of_isLegal (hc : Text.isControl c = true) {d : Dialect} {name : String}
    (h : d.isLegal name = true) : Lacks c (d.quote name) :=
  (lacks_quote_iff hc d name).2 (lacks_of_isLegal hc h)

/-- The parts of a table name are quoted, so that nothing in them is lost. -/
theorem lacks_reference_iff (hc : Text.isControl c = true) (d : Dialect) (s : TableSource) :
    Lacks c (s.reference d) ↔
      (d.usesProject = true → Lacks c s.project) ∧ Lacks c s.dataset ∧ Lacks c s.table := by
  have dot : Lacks c "." := lacks_of_printable hc _ (by decide)
  cases d with
  | bigQuery =>
    simp [TableSource.reference, Dialect.tableReference, lacks_enclose_iff hc, lacks_escape_iff hc,
      dot, Dialect.usesProject, and_assoc]
  | postgreSql =>
    simp [TableSource.reference, Dialect.tableReference, lacks_quote_iff hc, dot,
      Dialect.usesProject]

/-! ### Numbers and ranking columns -/

theorem isControl_of_isDigit {x : Char} (h : x.isDigit = true) : Text.isControl x = false := by
  have plain : Dialect.isPlainRest .postgreSql x = true := by simp [Dialect.isPlainRest, h]
  have bounds := Fragment.toNat_of_isPlainRest plain
  simp only [Text.isControl, Text.inRanges, List.any_eq_false, List.mem_cons, List.not_mem_nil,
    or_false, forall_eq_or_imp, forall_eq, Bool.and_eq_true, decide_eq_true_eq]
  omega

theorem lacks_toString (hc : Text.isControl c = true) (n : Nat) : Lacks c (toString n) := by
  refine lacks_of_printable hc _ (List.any_eq_false.2 fun x hx => ?_)
  rw [isControl_of_isDigit (Query.isDigit_of_mem_toString hx)]
  exact Bool.false_ne_true

theorem lacks_rankingColumn (hc : Text.isControl c = true) (u : Deduplication)
    (source name : String) : Lacks c (Query.rankingColumn u source name) :=
  lacks_of_printable hc _ (Query.rankingWord_rankingColumn u source name).printable

/-! ### Renderers -/

namespace Query

theorem lacks_commaList_iff (hc : Text.isControl c = true) (items : List String) :
    Lacks c (commaList items) ↔ ∀ item ∈ items, Lacks c item :=
  lacks_intercalate_iff (lacks_of_printable hc _ (by decide)) items

theorem lacks_selectItems_iff (hc : Text.isControl c = true) (items : List String) :
    Lacks c (selectItems items) ↔ ∀ item ∈ items, Lacks c item := by
  have bare : Lacks c "SELECT" := lacks_of_printable hc _ (by decide)
  have keyword : Lacks c "SELECT " := lacks_of_printable hc _ (by decide)
  unfold selectItems
  split
  · rename_i empty
    rw [List.isEmpty_iff.1 empty]
    exact iff_of_true bare (by simp)
  · rw [lacks_append_iff, lacks_commaList_iff hc]
    exact and_iff_right keyword

theorem lacks_aliased_iff (hc : Text.isControl c = true) {d : Dialect} {label : String}
    (text : String) (h : d.isLegal label = true) : Lacks c (aliased d text label) ↔ Lacks c text := by
  have keyword : Lacks c " AS " := lacks_of_printable hc _ (by decide)
  simp [aliased, keyword, lacks_quote_of_isLegal hc h]

theorem lacks_entryItems_iff (hc : Text.isControl c = true) {d : Dialect}
    {entries : List (String × Expr)} (h : ∀ entry ∈ entries, d.isLegal entry.1 = true) :
    (∀ item ∈ entries.map (entryItem d), Lacks c item) ↔ ∀ entry ∈ entries, Lacks c entry.2.text := by
  rw [List.forall_mem_map]
  exact forall₂_congr fun entry he => lacks_aliased_iff hc entry.2.text (h entry he)

theorem lacks_selectClause_iff (hc : Text.isControl c = true) {d : Dialect} {l : SelectList}
    (h : ∀ entry ∈ l.entries, d.isLegal entry.1 = true) :
    Lacks c (selectClause d l) ↔ ∀ entry ∈ l.entries, Lacks c entry.2.text := by
  rw [selectClause, lacks_selectItems_iff hc, lacks_entryItems_iff hc h]

theorem lacks_derivedTable_iff (hc : Text.isControl c = true) {d : Dialect} {name : String}
    (source : String) (h : d.isLegal name = true) :
    Lacks c (derivedTable d source name) ↔ Lacks c source := by
  have opening : Lacks c "(" := lacks_of_printable hc _ (by decide)
  have closing : Lacks c ") AS " := lacks_of_printable hc _ (by decide)
  simp [derivedTable, opening, closing, lacks_quote_of_isLegal hc h]

theorem lacks_exprList_iff (hc : Text.isControl c = true) (es : List Expr) :
    Lacks c (exprList es) ↔ ∀ e ∈ es, Lacks c e.text := by
  rw [exprList, lacks_commaList_iff hc, List.forall_mem_map]

theorem lacks_from_iff (hc : Text.isControl c = true) (clause table : String) :
    Lacks c (clause ++ " FROM " ++ table) ↔ Lacks c table ∧ Lacks c clause := by
  have keyword : Lacks c " FROM " := lacks_of_printable hc _ (by decide)
  rw [lacks_append_iff, lacks_append_iff, and_iff_left keyword, and_comm]

/-- What a select list and the inner statement bring into a layer. -/
theorem lacks_layer_front_iff (hc : Text.isControl c = true) {d : Dialect} {l : SelectList}
    {name : String} (source : String) (hl : ∀ entry ∈ l.entries, d.isLegal entry.1 = true)
    (hn : d.isLegal name = true) :
    Lacks c (selectClause d l ++ " FROM " ++ derivedTable d source name) ↔
      Lacks c source ∧ ∀ entry ∈ l.entries, Lacks c entry.2.text := by
  rw [lacks_from_iff hc, lacks_derivedTable_iff hc source hn, lacks_selectClause_iff hc hl]

theorem lacks_nested_iff (hc : Text.isControl c = true) {d : Dialect} {l : SelectList} {name : String}
    (source : String) (condition : Option Expr) (hl : ∀ entry ∈ l.entries, d.isLegal entry.1 = true)
    (hn : d.isLegal name = true) :
    Lacks c (nested d l source name condition) ↔ Lacks c source ∧
      (∀ entry ∈ l.entries, Lacks c entry.2.text) ∧ ∀ e ∈ condition, Lacks c e.text := by
  have keyword : Lacks c " WHERE " := lacks_of_printable hc _ (by decide)
  unfold nested
  rw [lacks_append_iff, lacks_layer_front_iff hc source hl hn, and_assoc]
  refine and_congr_right' (and_congr_right' ?_)
  cases condition with
  | none => exact iff_of_true (lacks_of_printable hc "" (by decide)) (by simp)
  | some e => simp [keyword]

theorem lacks_grouped_iff (hc : Text.isControl c = true) {d : Dialect} {g : Grouping} {name : String}
    (source : String) (hl : ∀ entry ∈ g.select.entries, d.isLegal entry.1 = true)
    (hn : d.isLegal name = true) :
    Lacks c (grouped d g source name) ↔ Lacks c source ∧ ∀ e ∈ g.expressions, Lacks c e.text := by
  have keyword : Lacks c " GROUP BY " := lacks_of_printable hc _ (by decide)
  rw [grouped, lacks_append_iff, lacks_layer_front_iff hc source hl hn, and_assoc,
    Grouping.expressions, List.forall_mem_append, SelectList.expressions, List.forall_mem_map]
  refine and_congr_right' (and_congr_right' ?_)
  split
  · rename_i empty
    rw [List.isEmpty_iff.1 empty]
    exact iff_of_true (lacks_of_printable hc "" (by decide)) (by simp)
  · rw [lacks_append_iff, lacks_exprList_iff hc]
    exact and_iff_right keyword

theorem lacks_windowSpec_iff (hc : Text.isControl c = true) (u : Deduplication) :
    Lacks c (windowSpec u) ↔
      (∀ e ∈ u.keys, Lacks c e.text) ∧ ∀ e ∈ u.order.map OrderItem.expr, Lacks c e.text := by
  have space : Lacks c " " := lacks_of_printable hc _ (by decide)
  have partitions : Lacks c "PARTITION BY " := lacks_of_printable hc _ (by decide)
  have orders : Lacks c "ORDER BY " := lacks_of_printable hc _ (by decide)
  have direction (x : Extreme) : Lacks c x.orderSql := by
    cases x <;> exact lacks_of_printable hc _ (by decide)
  rw [windowSpec, lacks_intercalate_iff space, List.forall_mem_append]
  refine and_congr ?_ ?_
  · split
    · rename_i empty
      rw [List.isEmpty_iff.1 empty]
      exact iff_of_true (by simp) (by simp)
    · simp [partitions, lacks_exprList_iff hc]
  · split
    · rename_i empty
      rw [List.isEmpty_iff.1 empty]
      exact iff_of_true (by simp) (by simp)
    · simp [orders, lacks_commaList_iff hc, orderItem, space, direction]

/-- The inner select clause shows all expressions; what the outer layer adds holds names only. -/
theorem lacks_deduplicated_iff (hc : Text.isControl c = true) {d : Dialect} {u : Deduplication}
    {name : String} (source : String) (hl : ∀ entry ∈ u.select.entries, d.isLegal entry.1 = true)
    (hn : d.isLegal name = true) :
    Lacks c (deduplicated d u source name) ↔
      Lacks c source ∧ ∀ e ∈ u.expressions, Lacks c e.text := by
  have condition : Lacks c " WHERE " := lacks_of_printable hc _ (by decide)
  have first : Lacks c " = 1" := lacks_of_printable hc _ (by decide)
  have window : Lacks c "ROW_NUMBER() OVER (" := lacks_of_printable hc _ (by decide)
  have closing : Lacks c ") AS " := lacks_of_printable hc _ (by decide)
  have number : Lacks c (d.quote (rankingColumn u source name)) :=
    (lacks_quote_iff hc d _).2 (lacks_rankingColumn hc u source name)
  have outer : Lacks c (selectItems (u.select.names.map fun label =>
      aliased d (d.quote label) label)) := by
    rw [lacks_selectItems_iff hc, SelectList.names, List.map_map, List.forall_mem_map]
    intro entry he
    exact (lacks_aliased_iff hc _ (hl entry he)).2 (lacks_quote_of_isLegal hc (hl entry he))
  have ranking : Lacks c ("ROW_NUMBER() OVER (" ++ windowSpec u ++ ") AS " ++
      d.quote (rankingColumn u source name)) ↔ Lacks c (windowSpec u) := by
    simp only [lacks_append_iff, window, closing, number, true_and, and_true]
  have inner : Lacks c (selectItems (u.select.entries.map (entryItem d) ++
      ["ROW_NUMBER() OVER (" ++ windowSpec u ++ ") AS " ++ d.quote (rankingColumn u source name)])) ↔
        ∀ e ∈ u.expressions, Lacks c e.text := by
    rw [lacks_selectItems_iff hc, List.forall_mem_append, lacks_entryItems_iff hc hl,
      List.forall_mem_singleton, ranking, lacks_windowSpec_iff hc, Deduplication.expressions,
      SelectList.expressions, List.forall_mem_append, List.forall_mem_append, and_assoc,
      List.forall_mem_map (l := u.select.entries)]
  rw [deduplicated, lacks_append_iff, lacks_append_iff, lacks_append_iff, lacks_from_iff hc,
    lacks_derivedTable_iff hc _ hn, lacks_from_iff hc, lacks_derivedTable_iff hc source hn, inner]
  simp only [outer, condition, number, first, and_true]

end Query

/-! ### Relations -/

namespace Relation

theorem isLegal_of_mem_entries {d : Dialect} {l : SelectList}
    (h : ∀ name ∈ l.names, d.isLegal name = true) : ∀ entry ∈ l.entries, d.isLegal entry.1 = true :=
  fun entry he => h entry.1 (List.mem_map_of_mem he)

theorem lacks_layer_iff (hc : Text.isControl c = true) {r : Relation} {op : Operation}
    (h : r.dialect.acceptsColumns r.columns = true) (hn : r.dialect.isLegal r.name = true)
    (ha : op.acceptable r.dialect = true) :
    Lacks c (r.layer op) ↔ Lacks c r.sql ∧ ∀ e ∈ op.expressions, Lacks c e.text := by
  have legal := isLegal_of_mem_entries
    ((Dialect.acceptsColumns_iff _ _).1 (acceptsColumns_outputList h ha)).1
  have entries := forall_outerEntries_iff (P := Lacks c)
    (fun _ hl => lacks_quote_of_isLegal hc hl) h ha
  have bare : (∀ entry ∈ r.outerEntries op, Lacks c entry.2.text) ∧ (∀ e ∈ (none : Option Expr),
      Lacks c e.text) ↔ ∀ e ∈ op.shown, Lacks c e.text := by
    rw [entries]
    exact and_iff_left (by simp)
  cases op with
  | setColumn | dropColumn | select =>
    exact (Query.lacks_nested_iff hc r.sql none legal hn).trans (and_congr_right' bare)
  | filter condition =>
    refine (Query.lacks_nested_iff hc r.sql (some condition) legal hn).trans (and_congr_right' ?_)
    have own := entries.2 (by simp [Operation.shown])
    have both := and_iff_right (b := ∀ e ∈ some condition, Lacks c e.text) own
    refine both.trans ?_
    simp [Operation.expressions]
  | groupBy grouping => exact Query.lacks_grouped_iff hc r.sql legal hn
  | deduplicate deduplication => exact Query.lacks_deduplicated_iff hc r.sql legal hn

theorem lacks_sql_ofTable_iff (hc : Text.isControl c = true) {d : Dialect} {s : TableSource}
    {r : Relation} (h : ofTable d s = .ok r) : Lacks c r.sql ↔ Lacks c (s.reference d) := by
  obtain ⟨fault, rfl⟩ := (ofTable_eq_ok_iff d s r).1 h
  have accepted := TableSource.acceptsColumns_of_fault_eq_none fault
  have names := ((Dialect.acceptsColumns_iff d s.columns).1 accepted).1
  have entries := entries_selectColumns (d := d) (Dialect.nodup_of_acceptsColumns accepted)
  have keyword : Lacks c " FROM " := lacks_of_printable hc _ (by decide)
  have legal : ∀ entry ∈ (selectColumns d s.columns).entries, d.isLegal entry.1 = true := by
    rw [entries]
    intro entry he
    obtain ⟨column, hm, rfl⟩ := List.mem_map.1 he
    exact names column hm
  have clause : Lacks c (Query.selectClause d (selectColumns d s.columns)) := by
    rw [Query.lacks_selectClause_iff hc legal, entries]
    exact forall_reference (fun column hm => lacks_quote_of_isLegal hc (names column hm)) names
  simp [Query.ofTable, clause, keyword]

theorem isLegal_name_of_ofTable {d : Dialect} {s : TableSource} {r : Relation}
    (h : ofTable d s = .ok r) : r.dialect.isLegal r.name = true := by
  obtain ⟨fault, rfl⟩ := (ofTable_eq_ok_iff d s r).1 h
  exact ((TableSource.fault_eq_none_iff d s).1 fault).2.2.2.1

namespace Reached

variable {d : Dialect} {s : TableSource} {ops : List Operation} {r : Relation}

theorem isLegal_name (h : Reached d s ops r) : r.dialect.isLegal r.name = true := by
  refine h.invariant (P := fun q => q.dialect.isLegal q.name = true) ?_ ?_
  · exact fun q hq => isLegal_name_of_ofTable hq
  · intro q op t legal happ
    obtain ⟨-, rfl⟩ := (apply_eq_ok_iff q op t).1 happ
    exact legal

/-- A control character of the statement stands in the name of the table or in an expression that was
handed over. -/
theorem lacks_sql_iff (hc : Text.isControl c = true) (h : Reached d s ops r) :
    Lacks c r.sql ↔
      Lacks c (s.reference d) ∧ ∀ op ∈ ops, ∀ e ∈ op.expressions, Lacks c e.text := by
  induction ops using List.reverseRecOn generalizing r with
  | nil =>
    rw [lacks_sql_ofTable_iff hc (nil_iff.1 h)]
    exact (and_iff_left (by simp)).symm
  | append_singleton init op ih =>
    obtain ⟨q, hq, happ⟩ := snoc_iff.1 h
    obtain ⟨ha, rfl⟩ := (apply_eq_ok_iff q op r).1 happ
    show Lacks c (q.layer op) ↔ _
    rw [lacks_layer_iff hc hq.acceptsColumns hq.isLegal_name ha, ih hq, List.forall_mem_append,
      and_assoc]
    simp only [List.mem_singleton, forall_eq]

end Reached

end Relation

/-! ### Terms of plans -/

theorem Term.lacks_expr_iff (hc : Text.isControl c = true) {d : Dialect} {t : Term}
    (h : ¬t.Refused d) :
    Lacks c (t.expr d).text ↔ ∀ text, t = .sql text → Lacks c (Text.trim text) := by
  cases t with
  | column name =>
    have legal : d.isLegal name = true := by simpa [Refused] using h
    rw [expr, (Expr.ofColumn_of_isLegal legal).1]
    exact iff_of_true (lacks_quote_of_isLegal hc legal) (by simp)
  | sql text =>
    have passes : Fragment.problem d text = none := by simpa [Refused] using h
    simp [expr, Expr.ofFragment, passes, Expr.text]

end Control

end LayeredSql
