import LayeredSql.Proofs.Statements

/-!
# Earlier statements inside later ones

Every operation puts the statement that it was given between parentheses of the new one, and a
deduplication does so twice. So the statements of all relations on the way to a relation can be found
in its own statement as blocks. How deep a block stands is read off the text in front of it, which the
lexical machine reads to its end without leaving a quotation open, whatever fragments it holds.
-/

namespace LayeredSql

open Fragment

def Operation.isDeduplicate (op : Operation) : Bool := op.kind = .deduplicate

namespace Nesting

/-- The text `inner` stands in `outer` between parentheses, and the reading of what is in front of
the opening one ends outside quoted text and `n` parentheses deep. -/
def Wraps (d : Dialect) (n : Nat) (inner outer : List Char) : Prop :=
  ∃ front back, outer = front ++ '(' :: (inner ++ ')' :: back) ∧ Clears d 0 front n

/-- The parenthesis opened right before the text is open all through it, and the next character
closes it. -/
def ClosesBehind (d : Dialect) (s : State) (text : List Char) : Prop :=
  (∀ part, part <+: text → ∃ t, run d s part = .ok t ∧ s.depth ≤ t.depth) ∧
    ∃ t, run d s (text ++ [')']) = .ok t ∧ t.mode.isOutside = true ∧ t.depth + 1 = s.depth

theorem clears_deeper {d : Dialect} {n k : Nat} {cs : List Char} (h : Clears d n cs k) (j : Nat) :
    Clears d (n + j) cs (k + j) :=
  run_deeper j h

theorem clears_open_behind {d : Dialect} {n : Nat} {front : List Char} (h : Clears d 0 front n) :
    Clears d 0 (front ++ ['(']) (n + 1) :=
  h.append (clears_open d n)

/-- What is wrapped by the wrapped text is wrapped, and the depths add up. -/
theorem Wraps.trans {d : Dialect} {m n : Nat} {a b c : List Char} (hab : Wraps d m a b)
    (hbc : Wraps d n b c) : Wraps d (m + (n + 1)) a c := by
  obtain ⟨front, back, rfl, inner⟩ := hab
  obtain ⟨front', back', rfl, outer⟩ := hbc
  refine ⟨front' ++ ['('] ++ front, back ++ ')' :: back', by simp, ?_⟩
  have deeper := clears_deeper inner (n + 1)
  rw [Nat.zero_add] at deeper
  exact (clears_open_behind outer).append deeper

theorem run_part {d : Dialect} {text part : List Char} (n : Nat) (h : Reads d 0 text 0)
    (hp : part <+: text) : ∃ t, run d ⟨.code, n⟩ part = .ok t ∧ n ≤ t.depth := by
  obtain ⟨rest, rfl⟩ := hp
  obtain ⟨t, ht, -, -⟩ := h
  obtain ⟨u, hu, -⟩ := run_append_eq_ok_iff.1 ht
  have deeper := run_deeper n hu
  rw [Nat.zero_add] at deeper
  exact ⟨_, deeper, Nat.le_add_left n u.depth⟩

theorem closesBehind_of_reads {d : Dialect} {text : List Char} (n : Nat) (h : Reads d 0 text 0) :
    ClosesBehind d ⟨.code, n + 1⟩ text := by
  refine ⟨fun part hp => run_part (n + 1) h hp, ⟨.code, n⟩, ?_, rfl, rfl⟩
  have inside := h.deeper (n + 1)
  rw [Nat.zero_add] at inside
  exact inside.clears_append (clears_close d n) (by decide)

theorem wraps_derivedTable {d : Dialect} {clause : String} (hc : Reads d 0 clause.toList 0)
    (source name tail : String) :
    Wraps d 0 source.toList
      (clause ++ " FROM " ++ Query.derivedTable d source name ++ tail).toList := by
  refine ⟨(clause ++ " FROM ").toList, (" AS " ++ d.quote name ++ tail).toList, ?_,
    Query.clears_from hc⟩
  simp [Query.derivedTable]

/-! ### Layers -/

theorem wraps_deduplicated {d : Dialect} {u : Deduplication} (source name : String)
    (h : ∀ e ∈ u.expressions, e.supportedBy d = true) :
    Wraps d 1 source.toList (Query.deduplicated d u source name).toList := by
  have inner := wraps_derivedTable (Query.reads_rankedClause source name h) source name ""
  have whole := inner.trans (wraps_derivedTable (Query.reads_labelClause d 0 u.select.names) _ name
    (" WHERE " ++ d.quote (Query.rankingColumn u source name) ++ " = 1"))
  simpa only [Query.deduplicated, String.append_empty, String.append_assoc] using whole

theorem wraps_layer {r : Relation} {op : Operation}
    (h : r.dialect.acceptsColumns r.columns = true) (ha : op.acceptable r.dialect = true) :
    Wraps r.dialect ([op].countP Operation.isDeduplicate) r.sql.toList (r.layer op).toList := by
  have clause := Query.reads_selectClause (n := 0) (Relation.supportedBy_outputList h ha)
  cases op with
  | deduplicate deduplication =>
    exact wraps_deduplicated r.sql r.name (Relation.supportedBy_of_acceptableList ha)
  | _ => exact wraps_derivedTable clause r.sql r.name _

end Nesting

open Nesting

namespace Relation.Reached

variable {d : Dialect} {s : TableSource} {ops more : List Operation} {a r : Relation}

theorem depth_eq_length (h : Reached d s ops r) : r.depth = ops.length := by
  induction ops using List.reverseRecOn generalizing r with
  | nil =>
    obtain ⟨-, rfl⟩ := (ofTable_eq_ok_iff d s r).1 (nil_iff.1 h)
    rfl
  | append_singleton init op ih =>
    obtain ⟨q, hq, happ⟩ := snoc_iff.1 h
    obtain ⟨-, rfl⟩ := (apply_eq_ok_iff q op r).1 happ
    rw [List.length_append, ← ih hq]
    rfl

theorem wraps_sql (ha : Reached d s ops a) (h : Reached d s (ops ++ more) r) :
    more = [] ∧ r = a ∨ ∃ n, n + 1 = more.length + more.countP Operation.isDeduplicate ∧
      Wraps d n a.sql.toList r.sql.toList := by
  induction more using List.reverseRecOn generalizing r with
  | nil =>
    rw [List.append_nil] at h
    exact Or.inl ⟨rfl, h.unique ha⟩
  | append_singleton init op ih =>
    rw [← List.append_assoc] at h
    obtain ⟨q, hq, happ⟩ := snoc_iff.1 h
    obtain ⟨accepted, rfl⟩ := (apply_eq_ok_iff q op r).1 happ
    have last := wraps_layer hq.acceptsColumns accepted
    rw [hq.dialect_eq] at last
    refine Or.inr ?_
    rcases ih hq with ⟨rfl, rfl⟩ | ⟨n, hn, before⟩
    · refine ⟨_, ?_, last⟩
      simp only [List.nil_append, List.length_singleton]
      omega
    · refine ⟨_, ?_, before.trans last⟩
      simp only [List.length_append, List.length_singleton, List.countP_append]
      omega

/-- The statement of a relation on the way is a block of the statement at the end: behind as many open
parentheses as there are operations in between, with deduplications counted twice, and between
parentheses of its own if there is any. -/
theorem sql_nests_earlier_sql (ha : Reached d s ops a) (h : Reached d s (ops ++ more) r) :
    r.depth = (ops ++ more).length ∧
    ∃ front back t, r.sql.toList = front ++ a.sql.toList ++ back ∧
      run d .start front = .ok t ∧ t.mode.isOutside = true ∧
      t.depth = more.length + more.countP Operation.isDeduplicate ∧
      (more ≠ [] → ∃ before behind u, front = before ++ ['('] ∧ back = ')' :: behind ∧
        run d .start before = .ok u ∧ u.mode.isOutside = true ∧ u.depth + 1 = t.depth ∧
        ClosesBehind d t a.sql.toList) := by
  refine ⟨h.depth_eq_length, ?_⟩
  rcases ha.wraps_sql h with ⟨rfl, rfl⟩ | ⟨n, hn, before, behind, split, clears⟩
  · exact ⟨[], [], _, by simp, rfl, rfl, rfl, fun hne => absurd rfl hne⟩
  · have reads := ha.reads_sql
    rw [ha.dialect_eq] at reads
    have opened := clears_open_behind clears
    refine ⟨before ++ ['('], ')' :: behind, _, by simp [split], opened, rfl, hn, ?_⟩
    intro _
    exact ⟨before, behind, _, rfl, rfl, clears, rfl, rfl, closesBehind_of_reads n reads⟩

/-- A condition that spells out `FROM (` in a literal, below a deduplication. -/
theorem sql_nests_earlier_sql_literal :
    ∃ a r, Reached .bigQuery ⟨"p", "d", "t", "ds", ["id", "Name"]⟩
        [.filter (.ofFragment .bigQuery "Name <> 'FROM (' OR (id > 0)")] a ∧
      Reached .bigQuery ⟨"p", "d", "t", "ds", ["id", "Name"]⟩
        ([.filter (.ofFragment .bigQuery "Name <> 'FROM (' OR (id > 0)")] ++
          [.deduplicate ⟨⟨[("id", .ofColumn .bigQuery "id")]⟩, [.ofColumn .bigQuery "id"], []⟩,
            .dropColumn "ID"]) r ∧
      r.depth = 3 ∧
      ∃ front back t, r.sql.toList = front ++ a.sql.toList ++ back ∧
        run .bigQuery .start front = .ok t ∧ t.mode.isOutside = true ∧ t.depth = 3 ∧
        ∃ before behind u, front = before ++ ['('] ∧ back = ')' :: behind ∧
          run .bigQuery .start before = .ok u ∧ u.mode.isOutside = true ∧ u.depth + 1 = t.depth ∧
          ClosesBehind .bigQuery t a.sql.toList := by
  obtain ⟨a, ha⟩ : ∃ a, Reached .bigQuery ⟨"p", "d", "t", "ds", ["id", "Name"]⟩
      [.filter (.ofFragment .bigQuery "Name <> 'FROM (' OR (id > 0)")] a :=
    exists_of_acceptable (by decide +kernel) (by decide +kernel)
  obtain ⟨r, hr⟩ : ∃ r, Reached .bigQuery ⟨"p", "d", "t", "ds", ["id", "Name"]⟩
      ([.filter (.ofFragment .bigQuery "Name <> 'FROM (' OR (id > 0)")] ++
        [.deduplicate ⟨⟨[("id", .ofColumn .bigQuery "id")]⟩, [.ofColumn .bigQuery "id"], []⟩,
          .dropColumn "ID"]) r :=
    exists_of_acceptable (by decide +kernel) (by decide +kernel)
  obtain ⟨depth, front, back, t, split, reads, outside, deep, own⟩ := ha.sql_nests_earlier_sql hr
  exact ⟨a, r, ha, hr, depth, front, back, t, split, reads, outside, deep, own (by simp)⟩

end Relation.Reached

end LayeredSql
