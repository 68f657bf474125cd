import LayeredSql.Proofs.Columns
import LayeredSql.Proofs.Derivation

/-!
# When a run of operations ends in a relation

Each operation is acceptable or not by itself, for the dialect alone: neither the columns nor the
statement of the relation matters. A run ends in a relation exactly when all of its operations are
acceptable, so their order plays no part in that. Otherwise it ends in the node that its first
unacceptable operation made, and no further operation leads away from that node.
-/

namespace LayeredSql

namespace Operation

/-- Names that are legal and of which no two mean the same column. -/
def NamesFit (d : Dialect) (names : List String) : Prop :=
  (∀ name ∈ names, d.isLegal name = true) ∧ names.Pairwise fun a b => d.sameColumn a b = false

/-- What the dialect asks of an operation, in terms of what the operation was given. -/
def Acceptable (d : Dialect) : Operation → Prop
  | setColumn name value => value.supportedBy d = true ∧ d.isLegal name = true
  | dropColumn _ => True
  | select columns =>
    (∀ e ∈ columns.expressions, e.supportedBy d = true) ∧ NamesFit d columns.names
  | filter condition => condition.supportedBy d = true
  | groupBy grouping =>
    (∀ e ∈ grouping.select.expressions, e.supportedBy d = true) ∧
      (∀ e ∈ grouping.keys, e.supportedBy d = true) ∧ NamesFit d grouping.select.names
  | deduplicate deduplication =>
    (∀ e ∈ deduplication.select.expressions, e.supportedBy d = true) ∧
      (∀ e ∈ deduplication.keys, e.supportedBy d = true) ∧
      (∀ item ∈ deduplication.order, item.expr.supportedBy d = true) ∧
      NamesFit d deduplication.select.names

/-- The error of an operation that is not acceptable. Dropping a column always is. -/
def refusal? : Operation → Option Rejection
  | setColumn .. => some .unsupportedExpression
  | dropColumn _ => none
  | select _ => some .unsupportedExpression
  | filter _ => some .unsupportedExpression
  | groupBy _ => some (.invalidDefinition .groupBy)
  | deduplicate _ => some (.invalidDefinition .deduplicate)

theorem acceptableList_iff (d : Dialect) (es : List Expr) (names : List String) :
    acceptableList d es names = true ↔ (∀ e ∈ es, e.supportedBy d = true) ∧ NamesFit d names := by
  simp only [acceptableList, Dialect.acceptsColumns, NamesFit, Bool.and_eq_true, List.all_eq_true,
    Bool.not_eq_true', Dialect.hasRepeated_eq_false_iff]

theorem acceptable_iff (d : Dialect) (op : Operation) :
    op.acceptable d = true ↔ op.Acceptable d := by
  cases op with
  | setColumn name value => simp only [acceptable, Acceptable, Bool.and_eq_true]
  | dropColumn name => exact iff_of_true rfl trivial
  | select columns => exact acceptableList_iff d _ _
  | filter condition => exact Iff.rfl
  | groupBy grouping =>
    rw [acceptable, acceptableList_iff, Grouping.expressions, List.forall_mem_append, and_assoc]
    rfl
  | deduplicate deduplication =>
    rw [acceptable, acceptableList_iff, Deduplication.expressions, List.forall_mem_append,
      List.forall_mem_append, List.forall_mem_map, and_assoc, and_assoc]
    rfl

instance (d : Dialect) (op : Operation) : Decidable (op.Acceptable d) :=
  decidable_of_iff (op.acceptable d = true) (acceptable_iff d op)

theorem refusal?_of_not_acceptable {d : Dialect} {op : Operation} (h : ¬op.Acceptable d) :
    op.refusal? = some op.kind.rejection := by
  cases op with
  | dropColumn name => exact absurd trivial h
  | _ => rfl

/-- The operations in front of the first unacceptable one. -/
theorem exists_first_not_acceptable {d : Dialect} {ops : List Operation}
    (h : ¬∀ op ∈ ops, op.Acceptable d) :
    ∃ init op rest, ops = init ++ op :: rest ∧ (∀ x ∈ init, x.Acceptable d) ∧ ¬op.Acceptable d := by
  induction ops with
  | nil => exact absurd (by simp) h
  | cons op ops ih =>
    by_cases ha : op.Acceptable d
    · have later : ¬∀ x ∈ ops, x.Acceptable d := fun all => h (List.forall_mem_cons.2 ⟨ha, all⟩)
      obtain ⟨init, bad, rest, rfl, before, hbad⟩ := ih later
      exact ⟨op :: init, bad, rest, rfl, List.forall_mem_cons.2 ⟨ha, before⟩, hbad⟩
    · exact ⟨[], op, ops, rfl, by simp, ha⟩

end Operation

namespace Store

/-- The node holds a relation, not a rejection. -/
def ValidAt (here : Store × NodeId) : Prop := ∃ r, here.1.content? here.2 = some (.ok r)

section Run

variable {s : Store} {id : NodeId} {r : Relation}

theorem validAt_deriveAll_iff (h : s.content? id = some (.ok r)) (ops : List Operation) :
    ValidAt (s.deriveAll id ops) ↔ ∀ op ∈ ops, op.Acceptable r.dialect := by
  simp only [ValidAt, content?_deriveAll h, Option.some.injEq, Relation.exists_applyAll_eq_ok_iff,
    Operation.acceptable_iff]

/-- The node that an unacceptable operation makes is new, and it is where every run that goes on from
there ends. -/
theorem deriveAll_of_not_acceptable (h : s.content? id = some (.ok r)) {init : List Operation}
    {op : Operation} (before : ∀ x ∈ init, x.Acceptable r.dialect) (hop : ¬op.Acceptable r.dialect) :
    (s.deriveAll id init).1.node? (s.deriveAll id (init ++ [op])).2 = none ∧
    ∀ later, (s.deriveAll id (init ++ [op] ++ later)).2 = (s.deriveAll id (init ++ [op])).2 ∧
      (s.deriveAll id (init ++ [op] ++ later)).1.content? (s.deriveAll id (init ++ [op])).2 =
        some (.error op.kind.rejection) := by
  obtain ⟨q, hq⟩ := (validAt_deriveAll_iff h init).2 before
  have same : q.dialect = r.dialect := by
    rw [content?_deriveAll h, Option.some.injEq] at hq
    exact Relation.dialect_of_applyAll hq
  have refused : ¬op.acceptable q.dialect = true := by
    rw [same, Operation.acceptable_iff]
    exact hop
  have made := derive_of_ok hq op
  rw [Relation.apply_of_not_acceptable refused, if_neg refused, ← deriveAll_concat] at made
  have error : (s.deriveAll id (init ++ [op])).1.content? (s.deriveAll id (init ++ [op])).2 =
      some (.error op.kind.rejection) := by
    rw [made]
    exact content?_add_self _ _ _
  refine ⟨?_, ?_⟩
  · rw [made]
    exact List.getElem?_eq_none (Nat.le_refl _)
  · intro later
    have stays := deriveAll_of_error error later
    have content := (extends_deriveAll error later).content? error
    rw [← deriveAll_append] at stays content
    exact ⟨stays, content⟩

/-- A run on a relation ends in a relation exactly when each operation is acceptable by itself,
whatever their order. If it does not, it ends in the node that its first unacceptable operation made,
which holds the error for that kind of operation, and every further run ends in this node too. -/
theorem run_valid_iff_each_acceptable (h : s.content? id = some (.ok r)) (ops : List Operation) :
    (ValidAt (s.deriveAll id ops) ↔ ∀ op ∈ ops, op.Acceptable r.dialect) ∧
    (∀ ops', ops.Perm ops' → (ValidAt (s.deriveAll id ops) ↔ ValidAt (s.deriveAll id ops'))) ∧
    (¬ValidAt (s.deriveAll id ops) → ∃ init op rest made e, ops = init ++ op :: rest ∧
      (∀ x ∈ init, x.Acceptable r.dialect) ∧ ¬op.Acceptable r.dialect ∧ op.refusal? = some e ∧
      (s.deriveAll id init).1.node? made = none ∧ (s.deriveAll id (init ++ [op])).2 = made ∧
      (s.deriveAll id ops).2 = made ∧ (s.deriveAll id ops).1.content? made = some (.error e) ∧
      ∀ later, (s.deriveAll id (ops ++ later)).2 = made ∧
        (s.deriveAll id (ops ++ later)).1.content? made = some (.error e)) := by
  have valid_iff := validAt_deriveAll_iff h
  refine ⟨valid_iff ops, ?_, ?_⟩
  · intro ops' perm
    rw [valid_iff, valid_iff]
    exact ⟨fun all op hop => all op (perm.mem_iff.2 hop), fun all op hop => all op (perm.mem_iff.1 hop)⟩
  · intro invalid
    rw [valid_iff] at invalid
    obtain ⟨init, op, rest, rfl, before, hop⟩ := Operation.exists_first_not_acceptable invalid
    obtain ⟨fresh, ends⟩ := deriveAll_of_not_acceptable h before hop
    have split (tail : List Operation) : init ++ op :: tail = init ++ [op] ++ tail := by simp
    refine ⟨init, op, rest, _, _, rfl, before, hop, Operation.refusal?_of_not_acceptable hop, fresh,
      rfl, ?_, ?_, ?_⟩
    · rw [split]
      exact (ends rest).1
    · rw [split]
      exact (ends rest).2
    · intro later
      rw [split, List.append_assoc]
      exact ends (rest ++ later)

/-- An expression of the other dialect is refused between two operations that are fine. -/
theorem run_valid_iff_each_acceptable_other_dialect :
    ∃ s ops, s = empty.add (.ok ⟨.bigQuery, "t", "ds", ["id", "Name"],
        "SELECT id AS id, Name AS Name FROM `p.d.t`", 0, .base⟩) none ∧
      ops = [.dropColumn "NAME", .setColumn "x" (.ofColumn .postgreSql "id"),
        .filter (.ofFragment .bigQuery "id > 0")] ∧
      (∃ r, s.content? 0 = some (.ok r) ∧ r.dialect = .bigQuery) ∧
      ¬ValidAt (s.deriveAll 0 ops) ∧
      ∀ later, (s.deriveAll 0 (ops ++ later)).2 = 2 ∧
        (s.deriveAll 0 (ops ++ later)).1.content? 2 = some (.error .unsupportedExpression) := by
  refine ⟨_, _, rfl, rfl, ⟨_, rfl, rfl⟩, ?_⟩
  have base : (empty.add (.ok ⟨.bigQuery, "t", "ds", ["id", "Name"],
      "SELECT id AS id, Name AS Name FROM `p.d.t`", 0, .base⟩) none).content? 0 =
        some (.ok ⟨.bigQuery, "t", "ds", ["id", "Name"],
          "SELECT id AS id, Name AS Name FROM `p.d.t`", 0, .base⟩) := rfl
  obtain ⟨acceptable, -, sticky⟩ := run_valid_iff_each_acceptable base
    [.dropColumn "NAME", .setColumn "x" (.ofColumn .postgreSql "id"),
      .filter (.ofFragment .bigQuery "id > 0")]
  have invalid := mt acceptable.1 (by decide +kernel)
  obtain ⟨-, -, -, made, e, -, -, -, -, -, -, ends, content, later⟩ := sticky invalid
  have second : made = 2 := ends.symm.trans (by decide +kernel)
  subst second
  have unsupported : e = .unsupportedExpression := by
    have found : some (.error e : Derived) = some (.error .unsupportedExpression) :=
      content.symm.trans (by decide +kernel)
    cases found
    rfl
  exact ⟨invalid, unsupported ▸ later⟩

end Run

end Store

end LayeredSql
