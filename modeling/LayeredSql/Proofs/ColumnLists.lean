import LayeredSql.Proofs.Columns

/-!
# Setting and dropping on column lists

What the operations do to the columns, said on lists of names alone: setting a column puts its name in the
place of the column that it means, or at the end, and dropping one leaves out the column that it means. A
relation searches for the first match only, and renames and inserts or erases there; this comes to the
same since no two of its columns mean the same. The laws of setting and dropping then are laws of lists.
-/

namespace LayeredSql

namespace ColumnList

/-- Every column that means `name` under this name. -/
def respell (d : Dialect) (name : String) (columns : List String) : List String :=
  columns.map fun c => if d.sameColumn c name then name else c

def put (d : Dialect) (name : String) (columns : List String) : List String :=
  if columns.any fun c => d.sameColumn c name then respell d name columns else columns ++ [name]

def remove (d : Dialect) (name : String) (columns : List String) : List String :=
  columns.filter fun c => !d.sameColumn c name

variable {d : Dialect} {a b : String}

theorem sameColumn_congr (h : d.sameColumn a b = true) (c : String) :
    d.sameColumn c a = d.sameColumn c b := by
  have key := (d.sameColumn_iff a b).1 h
  rw [Bool.eq_iff_iff, d.sameColumn_iff, d.sameColumn_iff, key]

/-- Another spelling of a column means the same. -/
theorem sameColumn_respelled (h : d.sameColumn a b = true) (c : String) :
    d.sameColumn (if d.sameColumn c a then a else c) b = d.sameColumn c b := by
  cases ha : d.sameColumn c a with
  | true => rw [if_pos rfl, h, ← sameColumn_congr h, ha]
  | false => rfl

/-- Where one column alone means the name, one place changes. -/
theorem map_ite_append {β : Type} {u : β} {g : String → β} {name column : String}
    {front back : List String} (hc : d.sameColumn column name = true)
    (hf : ∀ c ∈ front, d.sameColumn c name = false) (hb : ∀ c ∈ back, d.sameColumn c name = false) :
    (front ++ column :: back).map (fun c => if d.sameColumn c name then u else g c) =
      front.map g ++ u :: back.map g := by
  have other {columns : List String} (h : ∀ c ∈ columns, d.sameColumn c name = false) :
      columns.map (fun c => if d.sameColumn c name then u else g c) = columns.map g := by
    refine List.map_congr_left ?_
    intro c hc
    rw [h c hc]
    rfl
  rw [List.map_append, List.map_cons, other hf, other hb, if_pos hc]

theorem put_of_forall {name : String} {columns : List String}
    (h : ∀ c ∈ columns, d.sameColumn c name = false) : put d name columns = columns ++ [name] := by
  rw [put, if_neg]
  simpa using h

theorem put_append {name column : String} {front back : List String}
    (hc : d.sameColumn column name = true) (hf : ∀ c ∈ front, d.sameColumn c name = false)
    (hb : ∀ c ∈ back, d.sameColumn c name = false) :
    put d name (front ++ column :: back) = front ++ name :: back := by
  have places := map_ite_append (u := name) (g := id) hc hf hb
  rw [List.map_id, List.map_id] at places
  rw [put, if_pos (by simp [hc])]
  exact places

theorem forall_of_acceptsColumns {name column : String} {front back : List String}
    (h : d.acceptsColumns (front ++ column :: back) = true) (hc : d.sameColumn column name = true) :
    (∀ c ∈ front, d.sameColumn c name = false) ∧ ∀ c ∈ back, d.sameColumn c name = false := by
  have key := (d.sameColumn_iff column name).1 hc
  have distinct := ((Dialect.acceptsColumns_iff d _).1 h).2
  rw [List.pairwise_append, List.pairwise_cons] at distinct
  simp only [Dialect.sameColumn_eq_false_iff, ← key]
  constructor
  · intro c hf
    exact distinct.2.2 c hf column (by simp)
  · intro c hb
    exact (distinct.2.1.1 c hb).symm

/-! ### Laws -/

theorem remove_remove (d : Dialect) (a : String) (columns : List String) :
    remove d a (remove d a columns) = remove d a columns := by
  simp [remove]

theorem remove_comm (d : Dialect) (a b : String) (columns : List String) :
    remove d a (remove d b columns) = remove d b (remove d a columns) := by
  simp only [remove, List.filter_filter, Bool.and_comm]

theorem remove_respell (h : d.sameColumn a b = true) (columns : List String) :
    remove d b (respell d a columns) = remove d b columns := by
  induction columns with
  | nil => rfl
  | cons c rest ih =>
    simp only [remove, respell, List.map_cons, List.filter_cons, sameColumn_respelled h] at ih ⊢
    rw [ih, sameColumn_congr h]
    cases d.sameColumn c b <;> rfl

/-- What was set goes together with what it replaced. -/
theorem remove_put (h : d.sameColumn a b = true) (columns : List String) :
    remove d b (put d a columns) = remove d b columns := by
  unfold put
  split
  · exact remove_respell h columns
  · simp [remove, h]

theorem respell_respell (h : d.sameColumn a b = true) (columns : List String) :
    respell d b (respell d a columns) = respell d b columns := by
  rw [respell, respell, List.map_map]
  refine List.map_congr_left ?_
  intro c hc
  rw [Function.comp_apply, sameColumn_respelled h, sameColumn_congr h]
  cases d.sameColumn c b <;> rfl

theorem any_respell (h : d.sameColumn a b = true) (columns : List String) :
    ((respell d a columns).any fun c => d.sameColumn c b) =
      columns.any fun c => d.sameColumn c b := by
  rw [respell, List.any_map]
  exact congrArg columns.any (funext (sameColumn_respelled h))

/-- Of two spellings the last remains, in the place that the first one took. -/
theorem put_put (h : d.sameColumn a b = true) (columns : List String) :
    put d b (put d a columns) = put d b columns := by
  have both : (columns.any fun c => d.sameColumn c a) = columns.any fun c => d.sameColumn c b :=
    congrArg columns.any (funext (sameColumn_congr h))
  cases present : columns.any fun c => d.sameColumn c a with
  | true =>
    have first : put d a columns = respell d a columns := by rw [put, if_pos present]
    rw [first, put, any_respell h, ← both, if_pos present, respell_respell h, put, ← both,
      if_pos present]
  | false =>
    have none : ∀ c ∈ columns, d.sameColumn c b = false := by
      intro c hc
      rw [both] at present
      simpa using List.any_eq_false.1 present c hc
    have absent : ∀ c ∈ columns, d.sameColumn c a = false := by
      intro c hc
      rw [sameColumn_congr h]
      exact none c hc
    -- the first spelling was added at the end, where it is the only one that the second means
    rw [put_of_forall absent, put_of_forall none]
    exact put_append h none (by simp)

end ColumnList

/-- The columns that an accepted operation leaves. -/
def Operation.columnsFrom (d : Dialect) (columns : List String) : Operation → List String
  | setColumn name _ => ColumnList.put d name columns
  | dropColumn name => ColumnList.remove d name columns
  | select l => l.names
  | filter _ => columns
  | groupBy grouping => grouping.select.names
  | deduplicate deduplication => deduplication.select.names

namespace Relation

open ColumnList

variable {r : Relation}

theorem entries_setColumn_of_any {name : String} (value : Expr)
    (h : r.dialect.acceptsColumns r.columns = true)
    (hn : (r.columns.any fun c => r.dialect.sameColumn c name) = true) :
    (r.outputList (.setColumn name value)).entries = r.columns.map fun c =>
      if r.dialect.sameColumn c name then (name, value) else reference r.dialect c := by
  cases found : r.column? name with
  | none =>
    have none := List.find?_eq_none.1 found
    obtain ⟨c, hc, same⟩ := List.any_eq_true.1 hn
    exact absurd same (none c hc)
  | some column =>
    obtain ⟨front, back, split, key, entries⟩ := entries_setColumn_of_some value h found
    have same := (r.dialect.sameColumn_iff column name).2 key
    have others := forall_of_acceptsColumns (split ▸ h) same
    rw [entries, split, map_ite_append same others.1 others.2]

theorem entries_setColumn_of_forall {name : String} (value : Expr)
    (h : r.dialect.acceptsColumns r.columns = true)
    (hn : ∀ c ∈ r.columns, r.dialect.sameColumn c name = false) :
    (r.outputList (.setColumn name value)).entries =
      r.columns.map (reference r.dialect) ++ [(name, value)] := by
  refine entries_setColumn_of_none value h ?_
  refine List.find?_eq_none.2 ?_
  intro c hc
  rw [hn c hc]
  exact Bool.false_ne_true

/-- One operation: the columns are those that the operation leaves of the columns before. -/
theorem names_outputList (h : r.dialect.acceptsColumns r.columns = true) (op : Operation) :
    (r.outputList op).names = op.columnsFrom r.dialect r.columns := by
  cases op with
  | setColumn name value =>
    rw [Operation.columnsFrom, put, SelectList.names]
    cases present : r.columns.any fun c => r.dialect.sameColumn c name with
    | true =>
      rw [entries_setColumn_of_any value h present, if_pos rfl, respell, List.map_map]
      refine List.map_congr_left ?_
      intro c hc
      rw [Function.comp_apply]
      cases r.dialect.sameColumn c name <;> rfl
    | false =>
      have absent : ∀ c ∈ r.columns, r.dialect.sameColumn c name = false := by
        simpa using present
      rw [entries_setColumn_of_forall value h absent, List.map_append, map_fst_reference]
      rfl
  | dropColumn name =>
    rw [SelectList.names, entries_dropColumn name h, map_fst_reference]
    rfl
  | select columns => rfl
  | filter condition => exact names_selectColumns (Dialect.nodup_of_acceptsColumns h)
  | groupBy grouping => rfl
  | deduplicate deduplication => rfl

theorem exists_apply_eq_ok {op : Operation} (h : r.dialect.acceptsColumns r.columns = true)
    (ha : op.acceptable r.dialect = true) :
    ∃ t, r.apply op = .ok t ∧ t.dialect = r.dialect ∧ r.dialect.acceptsColumns t.columns = true ∧
      t.columns = op.columnsFrom r.dialect r.columns :=
  ⟨_, (apply_eq_ok_iff r op _).2 ⟨ha, rfl⟩, rfl, acceptsColumns_outputList h ha, names_outputList h op⟩

def columnsAfter (r : Relation) (ops : List Operation) : Except Rejection (List String) :=
  (Derived.applyAll (.ok r) ops).map columns

/-- A run: the columns are handed from one operation to the next. -/
theorem columnsAfter_eq (h : r.dialect.acceptsColumns r.columns = true) {ops : List Operation}
    (ha : ∀ op ∈ ops, op.acceptable r.dialect = true) :
    r.columnsAfter ops = .ok (ops.foldl (Operation.columnsFrom r.dialect) r.columns) := by
  induction ops generalizing r with
  | nil => rfl
  | cons op rest ih =>
    obtain ⟨t, step, dialect, accepted, columns⟩ := exists_apply_eq_ok h (ha op (by simp))
    have others : ∀ x ∈ rest, x.acceptable t.dialect = true := by
      intro x hx
      rw [dialect]
      exact ha x (by simp [hx])
    have next := ih (by rw [dialect]; exact accepted) others
    rw [dialect, columns] at next
    have first : r.columnsAfter (op :: rest) = t.columnsAfter rest := by
      show (Derived.applyAll (r.apply op) rest).map _ = _
      rw [step]
      rfl
    rw [first, next, List.foldl_cons]

/-! ### The outermost select list -/

/-- `t` is a layer around `r` that selects the given texts under the given names. -/
def Selects (r t : Relation) (items : List (String × String)) : Prop :=
  t.sql = "SELECT " ++ ", ".intercalate
      (items.map fun item => item.2 ++ " AS " ++ r.dialect.quote item.1) ++
    " FROM (" ++ r.sql ++ ") AS " ++ r.dialect.quote r.name

/-- The item of a column under its own name. -/
def ownItem (d : Dialect) (column : String) : String × String := (column, d.quote column)

def itemOf (entry : String × Expr) : String × String := (entry.1, entry.2.text)

theorem map_itemOf_reference {d : Dialect} {columns : List String}
    (h : ∀ c ∈ columns, d.isLegal c = true) :
    (columns.map (reference d)).map itemOf = columns.map (ownItem d) := by
  rw [List.map_map]
  refine List.map_congr_left ?_
  intro c hc
  show (c, (Expr.ofColumn d c).text) = (c, d.quote c)
  rw [(Expr.ofColumn_of_isLegal (h c hc)).1]

theorem selects_setColumn {t : Relation} {name : String} {value : Expr}
    (h : r.apply (.setColumn name value) = .ok t) {items : List (String × String)}
    (hi : (r.outputList (.setColumn name value)).entries.map itemOf = items) (some : items ≠ []) :
    Selects r t items := by
  subst hi
  obtain ⟨-, rfl⟩ := (apply_eq_ok_iff r _ t).1 h
  have entries : (r.outputList (.setColumn name value)).entries.map (Query.entryItem r.dialect) =
      ((r.outputList (.setColumn name value)).entries.map itemOf).map
        fun item => item.2 ++ " AS " ++ r.dialect.quote item.1 := by
    rw [List.map_map]
    rfl
  show Query.selectClause r.dialect _ ++ " FROM " ++ Query.derivedTable r.dialect r.sql r.name ++ "" = _
  rw [String.append_empty, Query.selectClause, entries,
    Query.selectItems_of_ne_nil (by simpa using some), Query.derivedTable, ← String.toList_inj]
  simp

theorem selects_setColumn_of_mem {t : Relation} {name column : String} {value : Expr}
    {front back : List String} (h : r.dialect.acceptsColumns r.columns = true)
    (step : r.apply (.setColumn name value) = .ok t) (split : r.columns = front ++ column :: back)
    (same : r.dialect.sameColumn column name = true) :
    Selects r t (front.map (ownItem r.dialect) ++ (name, value.text) ::
      back.map (ownItem r.dialect)) := by
  have legal := ((Dialect.acceptsColumns_iff r.dialect r.columns).1 h).1
  rw [split, List.forall_mem_append, List.forall_mem_cons] at legal
  have others := forall_of_acceptsColumns (split ▸ h) same
  have present : (r.columns.any fun c => r.dialect.sameColumn c name) = true := by
    simp [split, same]
  refine selects_setColumn step ?_ (by simp)
  rw [entries_setColumn_of_any value h present, split, map_ite_append same others.1 others.2,
    List.map_append, List.map_cons, map_itemOf_reference legal.1, map_itemOf_reference legal.2.2]
  rfl

theorem selects_setColumn_of_forall {t : Relation} {name : String} {value : Expr}
    (h : r.dialect.acceptsColumns r.columns = true)
    (step : r.apply (.setColumn name value) = .ok t)
    (absent : ∀ c ∈ r.columns, r.dialect.sameColumn c name = false) :
    Selects r t (r.columns.map (ownItem r.dialect) ++ [(name, value.text)]) := by
  have legal := ((Dialect.acceptsColumns_iff r.dialect r.columns).1 h).1
  refine selects_setColumn step ?_ (by simp)
  rw [entries_setColumn_of_forall value h absent, List.map_append, map_itemOf_reference legal]
  rfl

namespace Reached

variable {d : Dialect} {s : TableSource} {ops : List Operation}

/-- Setting a column replaces the one place where its name is meant or adds a place, and shows every other
column as it is; dropping a column leaves out what its name means. On the columns dropping is idempotent
and commutes, it undoes setting, and of two spellings that are set the last remains in its place. -/
theorem set_and_drop_edit_columns (h : Reached d s ops r) :
    (∀ name value, d.isLegal name = true → value.supportedBy d = true →
      ∃ t, r.apply (.setColumn name value) = .ok t ∧
        (∀ front column back, r.columns = front ++ column :: back → d.sameColumn column name = true →
          t.columns = front ++ name :: back ∧
          Selects r t (front.map (ownItem d) ++ (name, value.text) :: back.map (ownItem d))) ∧
        ((∀ c ∈ r.columns, d.sameColumn c name = false) →
          t.columns = r.columns ++ [name] ∧
          Selects r t (r.columns.map (ownItem d) ++ [(name, value.text)]))) ∧
    (∀ name, ∃ t, r.apply (.dropColumn name) = .ok t ∧
      t.columns = r.columns.filter fun c => !d.sameColumn c name) ∧
    (∀ a, r.columnsAfter [.dropColumn a, .dropColumn a] = r.columnsAfter [.dropColumn a]) ∧
    (∀ a b, r.columnsAfter [.dropColumn a, .dropColumn b] =
      r.columnsAfter [.dropColumn b, .dropColumn a]) ∧
    (∀ a b value, d.isLegal a = true → value.supportedBy d = true → d.sameColumn a b = true →
      r.columnsAfter [.setColumn a value, .dropColumn b] = r.columnsAfter [.dropColumn b]) ∧
    ∀ a b value value', d.isLegal a = true → value.supportedBy d = true → d.isLegal b = true →
      value'.supportedBy d = true → d.sameColumn a b = true →
      r.columnsAfter [.setColumn a value, .setColumn b value'] =
        r.columnsAfter [.setColumn b value'] := by
  have accepted := h.acceptsColumns
  obtain rfl := h.dialect_eq
  have drop (a : String) : (Operation.dropColumn a).acceptable r.dialect = true := rfl
  have set {a : String} {value : Expr} (legal : r.dialect.isLegal a = true)
      (supported : value.supportedBy r.dialect = true) :
      (Operation.setColumn a value).acceptable r.dialect = true := by
    rw [Operation.acceptable, legal, supported]
    rfl
  refine ⟨?_, ?_, ?_, ?_, ?_, ?_⟩
  · intro name value legal supported
    obtain ⟨t, step, -, -, columns⟩ := exists_apply_eq_ok accepted (set legal supported)
    rw [Operation.columnsFrom] at columns
    refine ⟨t, step, ?_, ?_⟩
    · intro front column back split same
      have others := forall_of_acceptsColumns (split ▸ accepted) same
      rw [split, put_append same others.1 others.2] at columns
      exact ⟨columns, selects_setColumn_of_mem accepted step split same⟩
    · intro absent
      rw [put_of_forall absent] at columns
      exact ⟨columns, selects_setColumn_of_forall accepted step absent⟩
  · intro name
    obtain ⟨t, step, -, -, columns⟩ := exists_apply_eq_ok accepted (drop name)
    exact ⟨t, step, columns⟩
  · intro a
    rw [columnsAfter_eq accepted (by simp [drop]), columnsAfter_eq accepted (by simp [drop])]
    exact congrArg Except.ok (remove_remove r.dialect a r.columns)
  · intro a b
    rw [columnsAfter_eq accepted (by simp [drop]), columnsAfter_eq accepted (by simp [drop])]
    exact congrArg Except.ok (remove_comm r.dialect b a r.columns)
  · intro a b value legal supported same
    rw [columnsAfter_eq accepted (by simp [drop, set legal supported]),
      columnsAfter_eq accepted (by simp [drop])]
    exact congrArg Except.ok (remove_put same r.columns)
  · intro a b value value' legal supported legal' supported' same
    rw [columnsAfter_eq accepted (by simp [set legal supported, set legal' supported']),
      columnsAfter_eq accepted (by simp [set legal' supported'])]
    exact congrArg Except.ok (put_put same r.columns)

/-- The sign of the kelvin is another spelling of the letter. -/
theorem set_and_drop_edit_columns_kelvin :
    ∃ r, Reached .bigQuery ⟨"p", "d", "t", "ds", ["id", "k", "b"]⟩ [] r ∧
      (∃ t, r.apply (.setColumn "\u212A" (.ofFragment .bigQuery "k + 1")) = .ok t ∧
        t.columns = ["id", "\u212A", "b"] ∧
        t.sql = "SELECT id AS id, k + 1 AS `\u212A`, b AS b FROM " ++
          "(SELECT id AS id, k AS k, b AS b FROM `p.d.t`) AS ds") ∧
      r.columnsAfter [.setColumn "\u212A" (.ofFragment .bigQuery "k + 1"), .dropColumn "K"] =
        r.columnsAfter [.dropColumn "K"] := by
  have reached : Reached .bigQuery ⟨"p", "d", "t", "ds", ["id", "k", "b"]⟩ []
      ⟨.bigQuery, "t", "ds", ["id", "k", "b"], "SELECT id AS id, k AS k, b AS b FROM `p.d.t`", 0,
        .base⟩ := by
    decide +kernel
  have legal : Dialect.bigQuery.isLegal "\u212A" = true := by decide +kernel
  have supported : (Expr.ofFragment .bigQuery "k + 1").supportedBy .bigQuery = true := by
    decide +kernel
  obtain ⟨set, -, -, -, undo, -⟩ := reached.set_and_drop_edit_columns
  obtain ⟨t, step, replaced, -⟩ := set "\u212A" (.ofFragment .bigQuery "k + 1") legal supported
  obtain ⟨columns, selects⟩ := replaced ["id"] "k" ["b"] rfl (by decide +kernel)
  exact ⟨_, reached, ⟨t, step, columns, selects.trans (by decide +kernel)⟩,
    undo "\u212A" "K" _ legal supported (by decide +kernel)⟩

end Reached

end Relation

end LayeredSql
