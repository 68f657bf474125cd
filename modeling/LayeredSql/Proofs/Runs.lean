import LayeredSql.Relation
import Mathlib.Data.List.Induction

/-!
# Runs of operations

A relation is reached when a stored table is accepted as a base and every operation of a finite
sequence is accepted after it. What a single accepted operation does is said once here; a property
of all reached relations then needs its base case and its step only.
-/

namespace LayeredSql

namespace Derived

theorem applyAll_snoc (x : Derived) (ops : List Operation) (op : Operation) :
    x.applyAll (ops ++ [op]) = (x.applyAll ops).apply op := by
  simp only [applyAll, List.foldl_append, List.foldl_cons, List.foldl_nil]

theorem applyAll_error (e : Rejection) (ops : List Operation) :
    applyAll (.error e) ops = .error e := by
  induction ops with
  | nil => rfl
  | cons op rest ih => exact ih

theorem apply_eq_ok_iff (x : Derived) (op : Operation) (r : Relation) :
    x.apply op = .ok r ↔ ∃ q, x = .ok q ∧ q.apply op = .ok r := by
  cases x with
  | error e => simp [apply, Except.bind]
  | ok q => simp [apply, Except.bind]

end Derived

namespace Relation

theorem ofTable_eq_ok_iff (d : Dialect) (s : TableSource) (r : Relation) :
    ofTable d s = .ok r ↔ s.fault d = none ∧
      r = ⟨d, s.table, s.name, (selectColumns d s.columns).names,
        Query.ofTable d (selectColumns d s.columns) (s.reference d), 0, .base⟩ := by
  unfold ofTable
  cases hf : s.fault d with
  | some f => simp
  | none =>
    simp only [Except.ok.injEq, true_and]
    exact eq_comm

theorem apply_eq_ok_iff (r : Relation) (op : Operation) (t : Relation) :
    r.apply op = .ok t ↔ op.acceptable r.dialect = true ∧
      t = ⟨r.dialect, r.table, r.name, (r.outputList op).names, r.layer op, r.depth + 1, op.kind⟩ := by
  unfold apply
  by_cases h : op.acceptable r.dialect = true
  · simp only [h, ite_true, Except.ok.injEq, true_and]
    exact eq_comm
  · simp [h]

theorem apply_of_not_acceptable {r : Relation} {op : Operation}
    (h : ¬op.acceptable r.dialect = true) : r.apply op = .error op.kind.rejection := by
  unfold apply
  rw [if_neg h]

/-- A sequence of operations leads to a relation exactly when each of them is accepted by itself. -/
theorem exists_applyAll_eq_ok_iff (r : Relation) (ops : List Operation) :
    (∃ t, Derived.applyAll (.ok r) ops = .ok t) ↔ ∀ op ∈ ops, op.acceptable r.dialect = true := by
  induction ops generalizing r with
  | nil => simp [Derived.applyAll]
  | cons op rest ih =>
    have step : Derived.applyAll (.ok r) (op :: rest) = Derived.applyAll (r.apply op) rest := rfl
    rw [step, List.forall_mem_cons]
    by_cases ha : op.acceptable r.dialect = true
    · have happ := (apply_eq_ok_iff r op _).2 ⟨ha, rfl⟩
      rw [happ, ih]
      exact (and_iff_right ha).symm
    · rw [apply_of_not_acceptable ha, Derived.applyAll_error]
      exact iff_of_false nofun fun h => ha h.1

theorem dialect_of_applyAll {r t : Relation} {ops : List Operation}
    (h : Derived.applyAll (.ok r) ops = .ok t) : t.dialect = r.dialect := by
  induction ops using List.reverseRecOn generalizing t with
  | nil =>
    cases h
    rfl
  | append_singleton init op ih =>
    rw [Derived.applyAll_snoc, Derived.apply_eq_ok_iff] at h
    obtain ⟨q, hq, happ⟩ := h
    have same := ih hq
    obtain ⟨-, rfl⟩ := (apply_eq_ok_iff q op t).1 happ
    exact same

/-- The operations lead from the base relation of the table to `r`, none of them rejected. -/
def Reached (d : Dialect) (s : TableSource) (ops : List Operation) (r : Relation) : Prop :=
  ∃ base, ofTable d s = .ok base ∧ Derived.applyAll (.ok base) ops = .ok r

namespace Reached

variable {d : Dialect} {s : TableSource} {ops : List Operation} {r : Relation}

instance : Decidable (Reached d s ops r) :=
  match h : ofTable d s with
  | .error _ => isFalse fun ⟨_, hb, _⟩ => nomatch h.symm.trans hb
  | .ok base => decidable_of_iff (Derived.applyAll (.ok base) ops = .ok r)
    ⟨fun hr => ⟨base, h, hr⟩, fun ⟨_, hb, hr⟩ => Except.ok.inj (h.symm.trans hb) ▸ hr⟩

theorem nil_iff : Reached d s [] r ↔ ofTable d s = .ok r := by
  constructor
  · rintro ⟨base, hb, hr⟩
    cases hr
    exact hb
  · intro h
    exact ⟨r, h, rfl⟩

theorem snoc_iff {op : Operation} :
    Reached d s (ops ++ [op]) r ↔ ∃ q, Reached d s ops q ∧ q.apply op = .ok r := by
  constructor
  · rintro ⟨base, hb, hr⟩
    rw [Derived.applyAll_snoc, Derived.apply_eq_ok_iff] at hr
    obtain ⟨q, hq, ha⟩ := hr
    exact ⟨q, ⟨base, hb, hq⟩, ha⟩
  · rintro ⟨q, ⟨base, hb, hq⟩, ha⟩
    refine ⟨base, hb, ?_⟩
    rw [Derived.applyAll_snoc, Derived.apply_eq_ok_iff]
    exact ⟨q, hq, ha⟩

theorem exists_of_acceptable (hs : s.fault d = none)
    (h : ∀ op ∈ ops, op.acceptable d = true) : ∃ r, Reached d s ops r := by
  obtain ⟨base, hb⟩ : ∃ base, ofTable d s = .ok base :=
    ⟨_, (ofTable_eq_ok_iff d s _).2 ⟨hs, rfl⟩⟩
  have dialect : base.dialect = d := by
    obtain ⟨-, rfl⟩ := (ofTable_eq_ok_iff d s base).1 hb
    rfl
  obtain ⟨r, hr⟩ := (exists_applyAll_eq_ok_iff base ops).2 (by rw [dialect]; exact h)
  exact ⟨r, base, hb, hr⟩

theorem acceptable (h : Reached d s ops r) : ∀ op ∈ ops, op.acceptable d = true := by
  obtain ⟨base, hb, hr⟩ := h
  obtain ⟨-, rfl⟩ := (ofTable_eq_ok_iff d s base).1 hb
  exact (exists_applyAll_eq_ok_iff _ ops).1 ⟨r, hr⟩

theorem unique {q : Relation} (h : Reached d s ops r) (h' : Reached d s ops q) : r = q := by
  obtain ⟨base, hb, hr⟩ := h
  obtain ⟨base', hb', hq⟩ := h'
  cases Except.ok.inj (hb.symm.trans hb')
  exact Except.ok.inj (hr.symm.trans hq)

/-- What the base has and every accepted operation keeps, all reached relations have. -/
theorem invariant {P : Relation → Prop} (base : ∀ q, ofTable d s = .ok q → P q)
    (step : ∀ q op t, P q → q.apply op = .ok t → P t) (h : Reached d s ops r) : P r := by
  induction ops using List.reverseRecOn generalizing r with
  | nil => exact base r (nil_iff.1 h)
  | append_singleton init op ih =>
    obtain ⟨q, hq, ha⟩ := snoc_iff.1 h
    exact step q op r (ih hq) ha

theorem dialect_eq (h : Reached d s ops r) : r.dialect = d := by
  obtain ⟨base, hb, hr⟩ := h
  obtain ⟨-, rfl⟩ := (ofTable_eq_ok_iff d s base).1 hb
  exact dialect_of_applyAll hr

end Reached

end Relation

end LayeredSql
