import LayeredSql.Proofs.Runs

/-!
# Columns of reached relations

The columns of every reached relation are legal names of its dialect, and no two of them mean the
same column. Four of the operations hand over a list that was checked as a whole or leave the
columns alone. Setting and dropping a column work on the first match, so they rest on there being at
most one.
-/

namespace LayeredSql

namespace Dialect

theorem sameColumn_eq_false_iff (d : Dialect) (a b : String) :
    d.sameColumn a b = false ↔ d.columnKey a ≠ d.columnKey b := by
  rw [← not_iff_not, ne_eq, not_not, ← sameColumn_iff, Bool.not_eq_false]

theorem acceptsColumns_iff (d : Dialect) (names : List String) :
    d.acceptsColumns names = true ↔ (∀ name ∈ names, d.isLegal name = true) ∧
      names.Pairwise fun a b => d.columnKey a ≠ d.columnKey b := by
  simp only [acceptsColumns, Bool.and_eq_true, List.all_eq_true, Bool.not_eq_true',
    hasRepeated_eq_false_iff, sameColumn_eq_false_iff]

theorem nodup_of_acceptsColumns {d : Dialect} {names : List String}
    (h : d.acceptsColumns names = true) : names.Nodup := by
  obtain ⟨-, distinct⟩ := (acceptsColumns_iff d names).1 h
  refine distinct.imp ?_
  intro a b hab heq
  exact hab (congrArg d.columnKey heq)

end Dialect

theorem Expr.supportedBy_ofColumn_iff (d : Dialect) (name : String) :
    (ofColumn d name).supportedBy d = true ↔ d.isLegal name = true := by
  by_cases h : d.isLegal name = true <;> simp [ofColumn, supportedBy, h]

/-! ### Entries after each operation on a select list -/

namespace SelectList

theorem insertEntry_of_not_mem (name : String) (e : Expr) (entries : List (String × Expr))
    (h : name ∉ entries.map Prod.fst) : insertEntry name e entries = entries ++ [(name, e)] := by
  induction entries with
  | nil => rfl
  | cons entry rest ih =>
    obtain ⟨n, old⟩ := entry
    simp only [List.map_cons, List.mem_cons, not_or] at h
    rw [insertEntry, if_neg (Ne.symm h.1), ih h.2]
    rfl

theorem insertEntry_append (name : String) (e old : Expr) (front back : List (String × Expr))
    (h : name ∉ front.map Prod.fst) :
    insertEntry name e (front ++ (name, old) :: back) = front ++ (name, e) :: back := by
  induction front with
  | nil => simp [insertEntry]
  | cons entry rest ih =>
    obtain ⟨n, x⟩ := entry
    simp only [List.map_cons, List.mem_cons, not_or] at h
    rw [List.cons_append, insertEntry, if_neg (Ne.symm h.1), ih h.2]
    rfl

theorem renameEntry_append (old new : String) (e : Expr) (front back : List (String × Expr))
    (h : old ∉ front.map Prod.fst) :
    renameEntry old new (front ++ (old, e) :: back) = front ++ (new, e) :: back := by
  induction front with
  | nil => simp [renameEntry]
  | cons entry rest ih =>
    obtain ⟨n, x⟩ := entry
    simp only [List.map_cons, List.mem_cons, not_or] at h
    rw [List.cons_append, renameEntry, if_neg (Ne.symm h.1), ih h.2]
    rfl

theorem entries_ofList_of_nodup (pairs : List (String × Expr)) (h : (pairs.map Prod.fst).Nodup) :
    (ofList pairs).entries = pairs := by
  induction pairs using List.reverseRecOn with
  | nil => rfl
  | append_singleton init pair ih =>
    rw [List.map_append, List.nodup_append] at h
    have hi := ih h.1
    have fresh : pair.1 ∉ init.map Prod.fst := by
      intro hm
      exact h.2.2 pair.1 hm pair.1 (by simp) rfl
    rw [ofList, List.foldl_append]
    show insertEntry pair.1 pair.2 (ofList init).entries = init ++ [pair]
    rw [hi, insertEntry_of_not_mem pair.1 pair.2 init fresh]

end SelectList

/-! ### Acceptance of a stored table -/

namespace TableSource

/-- The search for a faulty column finds none exactly when the columns can stand together, also with
those already seen. -/
theorem columnFault_eq_none_iff (d : Dialect) (seen columns : List String) :
    columnFault d seen columns = none ↔ d.acceptsColumns columns = true ∧
      ∀ a ∈ seen, ∀ b ∈ columns, d.columnKey a ≠ d.columnKey b := by
  induction columns generalizing seen with
  | nil => simp [columnFault, Dialect.acceptsColumns, Dialect.hasRepeated]
  | cons column rest ih =>
    rw [columnFault]
    by_cases legal : d.isLegal column = true
    · by_cases repeated : (seen.any fun earlier => d.sameColumn earlier column) = true
      · have clash : ∃ a ∈ seen, d.columnKey a = d.columnKey column := by
          simpa only [List.any_eq_true, Dialect.sameColumn_iff] using repeated
        obtain ⟨a, ha, hk⟩ := clash
        simp only [legal, repeated, Bool.not_true, Bool.false_eq_true, ite_false, ite_true]
        constructor
        · intro h
          cases h
        · intro h
          exact absurd hk (h.2 a ha column (by simp))
      · have apart : ∀ a ∈ seen, d.columnKey a ≠ d.columnKey column := by
          intro a ha hk
          exact repeated (List.any_eq_true.2 ⟨a, ha, (d.sameColumn_iff a column).2 hk⟩)
        simp only [legal, repeated, Bool.not_true, Bool.false_eq_true, ite_false, ih]
        simp only [Dialect.acceptsColumns_iff, List.mem_append, List.mem_cons, List.not_mem_nil,
          or_false, List.pairwise_cons]
        constructor
        · rintro ⟨⟨hl, hp⟩, hs⟩
          refine ⟨⟨?_, fun b hb => hs column (Or.inr rfl) b hb, hp⟩, ?_⟩
          · rintro b (rfl | hb)
            · exact legal
            · exact hl b hb
          · rintro a ha b (rfl | hb)
            · exact apart a ha
            · exact hs a (Or.inl ha) b hb
        · rintro ⟨⟨hl, hc, hp⟩, hs⟩
          refine ⟨⟨fun b hb => hl b (Or.inr hb), hp⟩, ?_⟩
          rintro a (ha | rfl) b hb
          · exact hs a ha b (Or.inr hb)
          · exact hc b hb
    · simp only [legal, Bool.not_false, ite_true, Dialect.acceptsColumns_iff]
      constructor
      · intro h
        cases h
      · intro h
        exact absurd (h.1.1 column (by simp)) legal

theorem fault_eq_none_iff (d : Dialect) (s : TableSource) :
    s.fault d = none ↔ (d.usesProject = true → Text.isBlankText s.project = false) ∧
      Text.isBlankText s.dataset = false ∧ Text.isBlankText s.table = false ∧
      d.isLegal s.name = true ∧ d.acceptsColumns s.columns = true ∧ s.columns ≠ [] := by
  have columns : columnFault d [] s.columns = none ↔ d.acceptsColumns s.columns = true := by
    rw [columnFault_eq_none_iff]
    exact and_iff_left nofun
  rw [← columns]
  unfold fault
  cases columnFault d [] s.columns with
  | none => grind [List.isEmpty_iff]
  | some f => grind

theorem acceptsColumns_of_fault_eq_none {d : Dialect} {s : TableSource} (h : s.fault d = none) :
    d.acceptsColumns s.columns = true :=
  ((fault_eq_none_iff d s).1 h).2.2.2.2.1

end TableSource

/-! ### Columns after each operation on a relation -/

namespace Relation

/-- A column under its own name. -/
def reference (d : Dialect) (column : String) : String × Expr := (column, Expr.ofColumn d column)

@[simp] theorem map_fst_reference (d : Dialect) (columns : List String) :
    (columns.map (reference d)).map Prod.fst = columns := by
  rw [List.map_map]
  exact List.map_id columns

theorem entries_selectColumns {d : Dialect} {columns : List String} (h : columns.Nodup) :
    (selectColumns d columns).entries = columns.map (reference d) := by
  refine SelectList.entries_ofList_of_nodup (columns.map (reference d)) ?_
  rw [map_fst_reference]
  exact h

theorem names_selectColumns {d : Dialect} {columns : List String} (h : columns.Nodup) :
    (selectColumns d columns).names = columns := by
  rw [SelectList.names, entries_selectColumns h, map_fst_reference]

theorem entries_selected {r : Relation} (h : r.dialect.acceptsColumns r.columns = true) :
    r.selected.entries = r.columns.map (reference r.dialect) :=
  entries_selectColumns (Dialect.nodup_of_acceptsColumns h)

theorem supportedBy_reference {d : Dialect} {columns : List String}
    (h : d.acceptsColumns columns = true) :
    ∀ entry ∈ columns.map (reference d), entry.2.supportedBy d = true := by
  intro entry he
  obtain ⟨column, hc, rfl⟩ := List.mem_map.1 he
  have legal := ((Dialect.acceptsColumns_iff d columns).1 h).1 column hc
  exact (Expr.ofColumn_of_isLegal legal).2.2

theorem entries_setColumn_of_none {r : Relation} {name : String} (value : Expr)
    (h : r.dialect.acceptsColumns r.columns = true) (hn : r.column? name = none) :
    (r.outputList (.setColumn name value)).entries =
      r.columns.map (reference r.dialect) ++ [(name, value)] := by
  have fresh : name ∉ (r.columns.map (reference r.dialect)).map Prod.fst := by
    rw [map_fst_reference]
    intro hm
    have same := List.find?_eq_none.1 hn name hm
    exact same ((r.dialect.sameColumn_iff name name).2 rfl)
  simp only [outputList, hn, SelectList.insert, entries_selected h]
  exact SelectList.insertEntry_of_not_mem name value _ fresh

theorem entries_setColumn_of_some {r : Relation} {name column : String} (value : Expr)
    (h : r.dialect.acceptsColumns r.columns = true) (hn : r.column? name = some column) :
    ∃ front back, r.columns = front ++ column :: back ∧
      r.dialect.columnKey column = r.dialect.columnKey name ∧
      (r.outputList (.setColumn name value)).entries =
        front.map (reference r.dialect) ++ (name, value) :: back.map (reference r.dialect) := by
  obtain ⟨same, front, back, split, before⟩ := List.find?_eq_some_iff_append.1 hn
  have key := (r.dialect.sameColumn_iff column name).1 same
  have other : ∀ x ∈ front, r.dialect.columnKey x ≠ r.dialect.columnKey name := by
    intro x hx
    have hb := before x hx
    rw [Bool.not_eq_true'] at hb
    exact (r.dialect.sameColumn_eq_false_iff x name).1 hb
  refine ⟨front, back, split, key, ?_⟩
  have notColumn : column ∉ (front.map (reference r.dialect)).map Prod.fst := by
    rw [map_fst_reference]
    intro hm
    exact other column hm key
  have notName : name ∉ (front.map (reference r.dialect)).map Prod.fst := by
    rw [map_fst_reference]
    intro hm
    exact other name hm rfl
  simp only [outputList, hn, SelectList.insert, SelectList.rename, entries_selected h]
  rw [split, List.map_append, List.map_cons]
  -- the renamed entry is the first under the new name, so the insertion meets it
  rw [show reference r.dialect column = (column, Expr.ofColumn r.dialect column) from rfl,
    SelectList.renameEntry_append column name _ _ _ notColumn,
    SelectList.insertEntry_append name value _ _ _ notName]

theorem entries_dropColumn {r : Relation} (name : String)
    (h : r.dialect.acceptsColumns r.columns = true) :
    (r.outputList (.dropColumn name)).entries =
      (r.columns.filter fun c => !r.dialect.sameColumn c name).map (reference r.dialect) := by
  cases hn : r.column? name with
  | none =>
    have all : (r.columns.filter fun c => !r.dialect.sameColumn c name) = r.columns := by
      rw [List.filter_eq_self]
      intro c hc
      simpa using List.find?_eq_none.1 hn c hc
    simp only [outputList, hn, entries_selected h, all]
  | some column =>
    obtain ⟨same, front, back, split, before⟩ := List.find?_eq_some_iff_append.1 hn
    have key := (r.dialect.sameColumn_iff column name).1 same
    have distinct := ((Dialect.acceptsColumns_iff r.dialect r.columns).1 h).2
    rw [split, List.pairwise_append, List.pairwise_cons] at distinct
    have kept (c : String) (hk : r.dialect.columnKey c ≠ r.dialect.columnKey name) :
        (!r.dialect.sameColumn c name) = true := by
      rw [(r.dialect.sameColumn_eq_false_iff c name).2 hk]
      rfl
    have hfront : (front.filter fun c => !r.dialect.sameColumn c name) = front := by
      rw [List.filter_eq_self]
      exact before
    have hback : (back.filter fun c => !r.dialect.sameColumn c name) = back := by
      rw [List.filter_eq_self]
      intro c hc
      apply kept
      rw [← key]
      exact (distinct.2.1.1 c hc).symm
    have notColumn : ∀ entry ∈ front.map (reference r.dialect),
        ¬decide (entry.1 = column) = true := by
      intro entry he heq
      obtain ⟨x, hx, rfl⟩ := List.mem_map.1 he
      have hxc : x = column := of_decide_eq_true heq
      exact distinct.2.2 x hx column (by simp) (congrArg r.dialect.columnKey hxc)
    have drop : (r.columns.filter fun c => !r.dialect.sameColumn c name) = front ++ back := by
      rw [split, List.filter_append, hfront, List.filter_cons, hback, same]
      rfl
    rw [drop]
    simp only [outputList, hn, SelectList.erase, entries_selected h]
    rw [split, List.map_append, List.map_cons, List.eraseP_append_right _ notColumn,
      List.eraseP_cons_of_pos (by simp [reference]), List.map_append]

/-- An accepted operation is handed a list that can be columns, or changes one in a way that keeps it
so. -/
theorem acceptsColumns_outputList {r : Relation} {op : Operation}
    (h : r.dialect.acceptsColumns r.columns = true) (ha : op.acceptable r.dialect = true) :
    r.dialect.acceptsColumns (r.outputList op).names = true := by
  cases op with
  | setColumn name value =>
    simp only [Operation.acceptable, Bool.and_eq_true] at ha
    obtain ⟨legal, distinct⟩ := (Dialect.acceptsColumns_iff r.dialect r.columns).1 h
    cases hn : r.column? name with
    | none =>
      have others : ∀ c ∈ r.columns, r.dialect.columnKey c ≠ r.dialect.columnKey name := by
        intro c hc
        have hne := List.find?_eq_none.1 hn c hc
        rw [Bool.not_eq_true] at hne
        exact (r.dialect.sameColumn_eq_false_iff c name).1 hne
      rw [SelectList.names, entries_setColumn_of_none value h hn, List.map_append,
        map_fst_reference, Dialect.acceptsColumns_iff, List.pairwise_append]
      refine ⟨?_, distinct, List.pairwise_singleton _ _, ?_⟩
      · intro c hc
        rcases List.mem_append.1 hc with hc | hc
        · exact legal c hc
        · rw [List.mem_singleton.1 hc]
          exact ha.2
      · intro c hc b hb
        rw [List.mem_singleton.1 hb]
        exact others c hc
    | some column =>
      obtain ⟨front, back, split, key, entries⟩ := entries_setColumn_of_some value h hn
      rw [split, List.pairwise_append, List.pairwise_cons] at distinct
      rw [SelectList.names, entries, List.map_append, List.map_cons, map_fst_reference,
        map_fst_reference, Dialect.acceptsColumns_iff, List.pairwise_append, List.pairwise_cons]
      refine ⟨?_, distinct.1, ⟨?_, distinct.2.1.2⟩, ?_⟩
      · intro c hc
        rcases List.mem_append.1 hc with hc | hc
        · exact legal c (split ▸ List.mem_append_left _ hc)
        · rcases List.mem_cons.1 hc with hc | hc
          · exact hc ▸ ha.2
          · exact legal c (split ▸ List.mem_append_right _ (List.mem_cons_of_mem _ hc))
      · intro c hc
        rw [← key]
        exact distinct.2.1.1 c hc
      · intro c hc b hb
        rcases List.mem_cons.1 hb with hb | hb
        · rw [hb, ← key]
          exact distinct.2.2 c hc column (by simp)
        · exact distinct.2.2 c hc b (List.mem_cons_of_mem _ hb)
  | dropColumn name =>
    obtain ⟨legal, distinct⟩ := (Dialect.acceptsColumns_iff r.dialect r.columns).1 h
    rw [SelectList.names, entries_dropColumn name h, map_fst_reference, Dialect.acceptsColumns_iff]
    refine ⟨?_, distinct.filter _⟩
    intro c hc
    exact legal c (List.mem_filter.1 hc).1
  | select columns =>
    simp only [Operation.acceptable, Operation.acceptableList, Bool.and_eq_true] at ha
    exact ha.2
  | filter condition =>
    show r.dialect.acceptsColumns (selectColumns r.dialect r.columns).names = true
    rw [names_selectColumns (Dialect.nodup_of_acceptsColumns h)]
    exact h
  | groupBy grouping =>
    simp only [Operation.acceptable, Operation.acceptableList, Bool.and_eq_true] at ha
    exact ha.2
  | deduplicate deduplication =>
    simp only [Operation.acceptable, Operation.acceptableList, Bool.and_eq_true] at ha
    exact ha.2

namespace Reached

variable {d : Dialect} {s : TableSource} {ops : List Operation} {r : Relation}

theorem acceptsColumns (h : Reached d s ops r) : r.dialect.acceptsColumns r.columns = true := by
  refine h.invariant (P := fun q => q.dialect.acceptsColumns q.columns = true) ?_ ?_
  · intro q hq
    obtain ⟨fault, rfl⟩ := (ofTable_eq_ok_iff d s q).1 hq
    have accepted := TableSource.acceptsColumns_of_fault_eq_none fault
    show d.acceptsColumns (selectColumns d s.columns).names = true
    rw [names_selectColumns (Dialect.nodup_of_acceptsColumns accepted)]
    exact accepted
  · intro q op t hq happ
    obtain ⟨ha, rfl⟩ := (apply_eq_ok_iff q op t).1 happ
    exact acceptsColumns_outputList hq ha

/-- The columns of a reached relation are legal and no two of them are the same column; selecting
them all gives one valid expression for each. -/
theorem columns_legal_and_distinct (h : Reached d s ops r) :
    (∀ column ∈ r.columns, r.dialect.isLegal column = true) ∧
    (∀ i j (hi : i < r.columns.length) (hj : j < r.columns.length), i ≠ j →
      r.dialect.sameColumn r.columns[i] r.columns[j] = false) ∧
    r.selected.names = r.columns ∧ r.selected.length = r.columns.length ∧
    ∀ e ∈ r.selected.expressions, e.isValid = true ∧ e.supportedBy r.dialect = true := by
  have accepted := h.acceptsColumns
  obtain ⟨legal, distinct⟩ := (Dialect.acceptsColumns_iff r.dialect r.columns).1 accepted
  refine ⟨legal, ?_, names_selectColumns (Dialect.nodup_of_acceptsColumns accepted), ?_, ?_⟩
  · intro i j hi hj hne
    rw [Dialect.sameColumn_eq_false_iff]
    rcases Nat.lt_or_gt_of_ne hne with hlt | hgt
    · exact List.pairwise_iff_getElem.1 distinct i j hi hj hlt
    · exact (List.pairwise_iff_getElem.1 distinct j i hj hi hgt).symm
  · rw [SelectList.length, entries_selected accepted, List.length_map]
  · intro e he
    rw [SelectList.expressions, entries_selected accepted, List.map_map] at he
    obtain ⟨column, hc, rfl⟩ := List.mem_map.1 he
    exact (Expr.ofColumn_of_isLegal (legal column hc)).2

/-- A column set under another case of its name keeps its place and takes the new spelling. -/
theorem columns_legal_and_distinct_recased :
    ∃ r, Reached .bigQuery ⟨"p", "d", "t", "ds", ["id", "Name"]⟩
        [.setColumn "NAME" (.ofFragment .bigQuery "UPPER(Name)")] r ∧
      r.columns = ["id", "NAME"] ∧
      (∀ column ∈ r.columns, r.dialect.isLegal column = true) ∧
      (∀ i j (hi : i < r.columns.length) (hj : j < r.columns.length), i ≠ j →
        r.dialect.sameColumn r.columns[i] r.columns[j] = false) ∧
      r.selected.names = r.columns ∧ r.selected.length = r.columns.length ∧
      ∀ e ∈ r.selected.expressions, e.isValid = true ∧ e.supportedBy r.dialect = true := by
  have reached : Reached .bigQuery ⟨"p", "d", "t", "ds", ["id", "Name"]⟩
      [.setColumn "NAME" (.ofFragment .bigQuery "UPPER(Name)")]
      ⟨.bigQuery, "t", "ds", ["id", "NAME"],
        "SELECT id AS id, UPPER(Name) AS NAME FROM " ++
          "(SELECT id AS id, Name AS Name FROM `p.d.t`) AS ds", 1, .setColumn⟩ := by
    decide +kernel
  exact ⟨_, reached, rfl, reached.columns_legal_and_distinct⟩

end Reached

end Relation

end LayeredSql
