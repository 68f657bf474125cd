import LayeredSql.Proofs.Acceptance

/-!
# Stored tables accepted as a base

When a stored table can be the base of a relation, and what is said about one that cannot. The columns
are looked at one after the other, each against those in front of it, and the first that does not fit ends
the search; this comes to the same condition as the one on the names of a later layer, which looks at all
of them at once.
-/

namespace LayeredSql

theorem Operation.acceptsColumns_iff_namesFit (d : Dialect) (names : List String) :
    d.acceptsColumns names = true ↔ NamesFit d names := by
  simp only [Dialect.acceptsColumns_iff, NamesFit, Dialect.sameColumn_eq_false_iff]

namespace TableSource

/-- What is asked of a table before its columns are looked at. -/
structure Qualified (d : Dialect) (s : TableSource) : Prop where
  project : d = .bigQuery → Text.isBlankText s.project = false
  dataset : Text.isBlankText s.dataset = false
  table : Text.isBlankText s.table = false
  name : d.isLegal s.name = true

/-- A column does not fit behind those in `front`. -/
def Faulty (d : Dialect) (front : List String) (column : String) : Prop :=
  d.isLegal column = false ∨ ∃ earlier ∈ front, d.sameColumn earlier column = true

/-- The column behind `front` is the first of the list that does not fit behind those before it. -/
def FirstFaulty (d : Dialect) (columns front : List String) (column : String) : Prop :=
  ∃ back, columns = front ++ column :: back ∧ Faulty d front column ∧
    ∀ init earlier rest, front = init ++ earlier :: rest → ¬Faulty d init earlier

theorem usesProject_iff (d : Dialect) : d.usesProject = true ↔ d = .bigQuery := by
  cases d <;> decide

theorem qualified_iff (d : Dialect) (s : TableSource) :
    s.Qualified d ↔ (d.usesProject = true → Text.isBlankText s.project = false) ∧
      Text.isBlankText s.dataset = false ∧ Text.isBlankText s.table = false ∧
      d.isLegal s.name = true := by
  rw [usesProject_iff]
  exact ⟨fun h => ⟨h.project, h.dataset, h.table, h.name⟩, fun h => ⟨h.1, h.2.1, h.2.2.1, h.2.2.2⟩⟩

/-! ### The search for a faulty column -/

/-- A search that finds a fault stops at a column in front of which there is none. -/
theorem exists_of_columnFault {d : Dialect} {seen columns : List String} {f : BaseFault}
    (h : columnFault d seen columns = some f) :
    ∃ front column back, columns = front ++ column :: back ∧ columnFault d seen front = none ∧
      Faulty d (seen ++ front) column ∧
      f = if d.isLegal column then .repeatedColumn column else .illegalColumn d column := by
  induction columns generalizing seen with
  | nil => cases h
  | cons column rest ih =>
    rw [columnFault] at h
    -- legality is asked first, so only a legal column is called repeated
    by_cases legal : d.isLegal column = true
    · by_cases repeated : (seen.any fun earlier => d.sameColumn earlier column) = true
      · simp only [legal, repeated, Bool.not_true, Bool.false_eq_true, ite_false, ite_true,
          Option.some.injEq] at h
        obtain ⟨earlier, he, same⟩ := List.any_eq_true.1 repeated
        refine ⟨[], column, rest, rfl, rfl, Or.inr ⟨earlier, ?_, same⟩, ?_⟩
        · exact List.mem_append_left _ he
        · rw [if_pos legal, h]
      · simp only [legal, repeated, Bool.not_true, Bool.false_eq_true, ite_false] at h
        obtain ⟨front, found, back, split, clear, faulty, hf⟩ := ih h
        refine ⟨column :: front, found, back, by rw [split, List.cons_append], ?_, ?_, hf⟩
        · simp only [columnFault, legal, repeated, Bool.not_true, Bool.false_eq_true, ite_false, clear]
        · rw [List.append_assoc] at faulty
          exact faulty
    · rw [Bool.not_eq_true] at legal
      simp only [legal, Bool.not_false, ite_true, Option.some.injEq] at h
      refine ⟨[], column, rest, rfl, rfl, Or.inl legal, ?_⟩
      rw [legal, ← h]
      rfl

theorem not_faulty_of_columnFault_eq_none {d : Dialect} {front init rest : List String}
    {earlier : String} (h : columnFault d [] front = none) (split : front = init ++ earlier :: rest) :
    ¬Faulty d init earlier := by
  have accepted := ((columnFault_eq_none_iff d [] front).1 h).1
  obtain ⟨legal, apart⟩ := (Operation.acceptsColumns_iff_namesFit d front).1 accepted
  rw [split] at legal apart
  rintro (illegal | ⟨other, ho, same⟩)
  · rw [legal earlier (by simp)] at illegal
    cases illegal
  · have different := (List.pairwise_append.1 apart).2.2 other ho earlier (by simp)
    rw [different] at same
    cases same

theorem exists_firstFaulty {d : Dialect} {columns : List String} {f : BaseFault}
    (h : columnFault d [] columns = some f) :
    ∃ front column, FirstFaulty d columns front column ∧
      f = if d.isLegal column then .repeatedColumn column else .illegalColumn d column := by
  obtain ⟨front, column, back, split, clear, faulty, hf⟩ := exists_of_columnFault h
  refine ⟨front, column, ⟨back, split, faulty, ?_⟩, hf⟩
  intro init earlier rest
  exact not_faulty_of_columnFault_eq_none clear

theorem fault_of_qualified {d : Dialect} {s : TableSource} (h : s.Qualified d) :
    s.fault d = (columnFault d [] s.columns).orElse fun _ =>
      if s.columns = [] then some .noColumns else none := by
  obtain ⟨project, dataset, table, name⟩ := (qualified_iff d s).1 h
  have noProject : (d.usesProject && Text.isBlankText s.project) = false := by
    cases hp : d.usesProject with
    | true => rw [project hp, Bool.and_false]
    | false => rfl
  unfold fault
  rw [noProject, dataset, table, name]
  cases columnFault d [] s.columns with
  | some f => rfl
  | none => simp

theorem fault_eq_none_iff_qualified (d : Dialect) (s : TableSource) :
    s.fault d = none ↔ s.Qualified d ∧ s.columns ≠ [] ∧ d.acceptsColumns s.columns = true := by
  rw [fault_eq_none_iff, qualified_iff]
  tauto

end TableSource

namespace Relation

theorem exists_ofTable_iff (d : Dialect) (s : TableSource) :
    (∃ r, ofTable d s = .ok r) ↔ s.fault d = none := by
  simp only [ofTable_eq_ok_iff, exists_and_left, exists_eq, and_true]

theorem ofTable_eq_error_iff (d : Dialect) (s : TableSource) (f : BaseFault) :
    ofTable d s = .error f ↔ s.fault d = some f := by
  unfold ofTable
  cases s.fault d with
  | none => simp
  | some g => simp

/-- A stored table is accepted exactly when its parts are in order and its columns are not empty and can
stand together, and then it has these columns. A refusal is an invalid argument; if only the columns are at
fault it names the first that does not fit, and calls it illegal if it is, whether or not it is repeated. -/
theorem ofTable_accepts_or_names_column (d : Dialect) (s : TableSource) :
    ((∃ r, ofTable d s = .ok r) ↔
      s.Qualified d ∧ s.columns ≠ [] ∧ Operation.NamesFit d s.columns) ∧
    (d.acceptsColumns s.columns = true ↔ Operation.NamesFit d s.columns) ∧
    (∀ r, ofTable d s = .ok r → r.columns = s.columns ∧ r.depth = 0) ∧
    ∀ f, ofTable d s = .error f → ∃ reason, f.toError = .invalidArgument reason ∧
      (s.Qualified d →
        s.columns = [] ∧ reason = "a base relation needs at least one column" ∨
        ∃ front column, TableSource.FirstFaulty d s.columns front column ∧
          reason = if d.isLegal column then "column '" ++ column ++ "' is listed more than once"
            else "column '" ++ column ++ "' is not a legal " ++ d.name ++ " identifier") := by
  refine ⟨?_, Operation.acceptsColumns_iff_namesFit d s.columns, ?_, ?_⟩
  · rw [exists_ofTable_iff, TableSource.fault_eq_none_iff_qualified,
      Operation.acceptsColumns_iff_namesFit]
  · intro r h
    obtain ⟨fault, rfl⟩ := (ofTable_eq_ok_iff d s r).1 h
    have accepted := TableSource.acceptsColumns_of_fault_eq_none fault
    exact ⟨names_selectColumns (Dialect.nodup_of_acceptsColumns accepted), rfl⟩
  · intro f h
    refine ⟨f.message, rfl, ?_⟩
    intro qualified
    rw [ofTable_eq_error_iff, TableSource.fault_of_qualified qualified] at h
    cases hc : TableSource.columnFault d [] s.columns with
    | some g =>
      rw [hc] at h
      cases h
      obtain ⟨front, column, first, rfl⟩ := TableSource.exists_firstFaulty hc
      refine Or.inr ⟨front, column, first, ?_⟩
      split <;> rfl
    | none =>
      rw [hc] at h
      by_cases empty : s.columns = []
      · simp only [Option.orElse_none, empty, ite_true, Option.some.injEq] at h
        exact Or.inl ⟨empty, h ▸ rfl⟩
      · simp [empty] at h

end Relation

end LayeredSql
