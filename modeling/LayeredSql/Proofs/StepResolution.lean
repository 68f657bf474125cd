import LayeredSql.Plan.Compile
import LayeredSql.Proofs.Acceptance
import Mathlib.Data.List.Nodup

/-!
# What the steps of a plan ask for

A step of a plan becomes an operation once its terms are expressions of the dialect. That fails only
if its select list names a column twice, and then the first name that stands there for the second time
is reported. Otherwise the operation has expressions of this dialect only, so that it is unacceptable
for three reasons alone: a column reference that is illegal, a fragment that the lexical check refuses,
or output names that are illegal or mean the same column.
-/

namespace LayeredSql

instance : LawfulMonad Logged := LawfulMonad.mk' Logged
  (fun x => congrArg (Logged.mk x.value) (List.append_nil x.events))
  (fun _ _ => rfl)
  (fun x f g => congrArg (Logged.mk _)
    (List.append_assoc x.events (f x.value).events (g (f x.value).value).events))

theorem Logged.value_mapM {α β : Type} (f : α → Logged β) (xs : List α) :
    (xs.mapM f).value = xs.map fun x => (f x).value := by
  induction xs with
  | nil => rfl
  | cons x xs ih =>
    rw [List.mapM_cons, value_bind, value_bind, ih]
    rfl

/-! ### Terms -/

namespace Term

def expr (d : Dialect) : Term → Expr
  | column name => .ofColumn d name
  | sql text => .ofFragment d text

/-- The dialect has no valid expression for the term. -/
def Refused (d : Dialect) : Term → Prop
  | column name => d.isLegal name = false
  | sql text => Fragment.problem d text ≠ none

theorem value_resolve (d : Dialect) (t : Term) : (t.resolve d).value = t.expr d := by
  cases t with
  | column name => rfl
  | sql text => rfl

theorem dialect?_expr (d : Dialect) (t : Term) : (t.expr d).dialect? = some d := by
  cases t with
  | column name =>
    rw [expr, Expr.ofColumn]
    split <;> rfl
  | sql text =>
    rw [expr, Expr.ofFragment]
    split <;> rfl

theorem supportedBy_expr_iff (d : Dialect) (t : Term) :
    (t.expr d).supportedBy d = true ↔ ¬t.Refused d := by
  cases t with
  | column name => rw [expr, Refused, Expr.supportedBy_ofColumn_iff, Bool.not_eq_false]
  | sql text =>
    by_cases h : Fragment.problem d text = none <;>
      simp [expr, Expr.ofFragment, Refused, Expr.supportedBy, h]

end Term

theorem value_resolveAll (d : Dialect) (terms : List Term) :
    (resolveAll d terms).value = terms.map (Term.expr d) := by
  rw [resolveAll, Logged.value_mapM]
  exact List.map_congr_left fun t _ => t.value_resolve d

def OrderTerm.item (d : Dialect) (t : OrderTerm) : OrderItem := ⟨t.term.expr d, t.extreme⟩

theorem value_resolveOrder (d : Dialect) (terms : List OrderTerm) :
    (resolveOrder d terms).value = terms.map (OrderTerm.item d) := by
  rw [resolveOrder, Logged.value_mapM]
  refine List.map_congr_left fun t _ => ?_
  show (⟨(t.term.resolve d).value, t.extreme⟩ : OrderItem) = _
  rw [Term.value_resolve]
  rfl

/-! ### Select lists -/

/-- The first name of the list that also stands further in front is `c`. -/
def RepeatsFirst (names : List String) (c : String) : Prop :=
  ∃ front back, names = front ++ c :: back ∧ front.Nodup ∧ c ∈ front

theorem exists_repeatsFirst {names : List String} (h : ¬names.Nodup) :
    ∃ c, RepeatsFirst names c := by
  induction names using List.reverseRecOn with
  | nil => exact absurd List.nodup_nil h
  | append_singleton init name ih =>
    by_cases hi : init.Nodup
    · have again : name ∈ init := by
        by_contra fresh
        refine h (List.nodup_append.2 ⟨hi, List.nodup_singleton name, ?_⟩)
        rintro a ha b hb rfl
        exact fresh (List.mem_singleton.1 hb ▸ ha)
      exact ⟨name, init, [], rfl, hi, again⟩
    · obtain ⟨c, front, back, rfl, hf, hc⟩ := ih hi
      exact ⟨c, front, back ++ [name], by simp, hf, hc⟩

theorem RepeatsFirst.not_nodup {names : List String} {c : String} (h : RepeatsFirst names c) :
    ¬names.Nodup := by
  obtain ⟨front, back, rfl, -, hc⟩ := h
  intro nodup
  exact (List.nodup_append.1 nodup).2.2 c hc c (by simp) rfl

def NamedTerm.entry (d : Dialect) (t : NamedTerm) : String × Expr := (t.name, t.term.expr d)

section ResolveOnto

variable {d : Dialect} {l : SelectList}

theorem value_resolveOnto_cons (t : NamedTerm) (rest : List NamedTerm) (h : t.name ∉ l.names) :
    (resolveOnto d l (t :: rest)).value =
      (resolveOnto d ⟨l.entries ++ [t.entry d]⟩ rest).value := by
  have fresh : ¬l.contains t.name = true := by
    rw [SelectList.contains_iff]
    exact h
  have inserted : l.insert t.name (t.term.expr d) = ⟨l.entries ++ [t.entry d]⟩ := by
    rw [SelectList.insert, SelectList.insertEntry_of_not_mem _ _ _ h]
    rfl
  rw [resolveOnto, if_neg fresh, Logged.value_bind, Term.value_resolve, inserted]

theorem value_resolveOnto_of_nodup (terms : List NamedTerm)
    (h : (l.names ++ terms.map NamedTerm.name).Nodup) :
    (resolveOnto d l terms).value = .ok ⟨l.entries ++ terms.map (NamedTerm.entry d)⟩ := by
  induction terms generalizing l with
  | nil =>
    rw [List.map_nil, List.append_nil]
    rfl
  | cons t rest ih =>
    have fresh : t.name ∉ l.names := by
      intro hm
      exact (List.nodup_append.1 h).2.2 t.name hm t.name (by simp) rfl
    have next : ((⟨l.entries ++ [t.entry d]⟩ : SelectList).names ++
        rest.map NamedTerm.name).Nodup := by
      simpa [SelectList.names, NamedTerm.entry] using h
    rw [value_resolveOnto_cons t rest fresh, ih next]
    simp

/-- The names in front are all new, and the next one is not. -/
theorem value_resolveOnto_of_mem (front : List NamedTerm) (t : NamedTerm) (back : List NamedTerm)
    (h : (l.names ++ front.map NamedTerm.name).Nodup)
    (ht : t.name ∈ l.names ++ front.map NamedTerm.name) :
    (resolveOnto d l (front ++ t :: back)).value = .error t.name := by
  induction front generalizing l with
  | nil =>
    have again : l.contains t.name = true := by
      rw [SelectList.contains_iff]
      simpa using ht
    rw [List.nil_append, resolveOnto, if_pos again]
    rfl
  | cons first rest ih =>
    have fresh : first.name ∉ l.names := by
      intro hm
      exact (List.nodup_append.1 h).2.2 first.name hm first.name (by simp) rfl
    have names : (⟨l.entries ++ [first.entry d]⟩ : SelectList).names ++ rest.map NamedTerm.name =
        l.names ++ (first :: rest).map NamedTerm.name := by
      simp [SelectList.names, NamedTerm.entry]
    rw [List.cons_append, value_resolveOnto_cons first _ fresh]
    exact ih (names ▸ h) (names ▸ ht)

end ResolveOnto

theorem value_resolveList_of_nodup (d : Dialect) {terms : List NamedTerm}
    (h : (terms.map NamedTerm.name).Nodup) :
    (resolveList d terms).value = .ok ⟨terms.map (NamedTerm.entry d)⟩ :=
  value_resolveOnto_of_nodup (l := .empty) terms h

theorem value_resolveList_of_repeatsFirst (d : Dialect) {terms : List NamedTerm} {c : String}
    (h : RepeatsFirst (terms.map NamedTerm.name) c) : (resolveList d terms).value = .error c := by
  obtain ⟨front, back, split, hf, hc⟩ := h
  obtain ⟨first, rest, rfl, rfl, hr⟩ := List.map_eq_append_iff.1 split
  obtain ⟨t, more, rfl, rfl, -⟩ := List.map_eq_cons_iff.1 hr
  exact value_resolveOnto_of_mem (l := .empty) first t more hf hc

/-! ### Operations by their expressions and names -/

namespace Operation

def expressions : Operation → List Expr
  | setColumn _ value => [value]
  | dropColumn _ => []
  | select columns => columns.expressions
  | filter condition => [condition]
  | groupBy grouping => grouping.expressions
  | deduplicate deduplication => deduplication.expressions

/-- The names that the operation gives to columns. -/
def givenNames : Operation → List String
  | setColumn name _ => [name]
  | dropColumn _ => []
  | select columns => columns.names
  | filter _ => []
  | groupBy grouping => grouping.select.names
  | deduplicate deduplication => deduplication.select.names

theorem acceptable_iff_expressions (d : Dialect) (op : Operation) :
    op.acceptable d = true ↔
      (∀ e ∈ op.expressions, e.supportedBy d = true) ∧ NamesFit d op.givenNames := by
  cases op with
  | setColumn name value => simp [acceptable, expressions, givenNames, NamesFit]
  | dropColumn name => simp [acceptable, expressions, givenNames, NamesFit]
  | filter condition => simp [acceptable, expressions, givenNames, NamesFit]
  | select columns => exact acceptableList_iff d _ _
  | groupBy grouping => exact acceptableList_iff d _ _
  | deduplicate deduplication => exact acceptableList_iff d _ _

end Operation

/-! ### Steps -/

namespace Step

/-- The names of the select list that the step gives. -/
def listed : Step → List String
  | select columns => columns.map NamedTerm.name
  | groupBy output _ => output.map NamedTerm.name
  | deduplicate output _ _ => output.map NamedTerm.name
  | _ => []

def operation (d : Dialect) : Step → Operation
  | setColumn name value => .setColumn name (value.expr d)
  | dropColumn name => .dropColumn name
  | select columns => .select ⟨columns.map (NamedTerm.entry d)⟩
  | filter condition => .filter (condition.expr d)
  | groupBy output keys => .groupBy ⟨⟨output.map (NamedTerm.entry d)⟩, keys.map (Term.expr d)⟩
  | deduplicate output keys order =>
    .deduplicate ⟨⟨output.map (NamedTerm.entry d)⟩, keys.map (Term.expr d),
      order.map (OrderTerm.item d)⟩

theorem value_resolve_of_nodup (d : Dialect) {step : Step} (h : step.listed.Nodup) :
    (step.resolve d).value = .ok (step.operation d) := by
  cases step with
  | setColumn name value => rw [resolve, Logged.value_bind, Term.value_resolve]; rfl
  | dropColumn name => rfl
  | select columns =>
    rw [resolve, Logged.value_bind, value_resolveList_of_nodup d h]
    rfl
  | filter condition => rw [resolve, Logged.value_bind, Term.value_resolve]; rfl
  | groupBy output keys =>
    rw [resolve, Logged.value_bind, value_resolveList_of_nodup d h]
    simp only [Logged.value_bind, value_resolveAll]
    rfl
  | deduplicate output keys order =>
    rw [resolve, Logged.value_bind, Logged.value_bind, value_resolveList_of_nodup d h]
    simp only [Logged.value_bind, value_resolveAll, value_resolveOrder]
    rfl

theorem value_resolve_of_repeatsFirst (d : Dialect) {step : Step} {c : String}
    (h : RepeatsFirst step.listed c) : (step.resolve d).value = .error c := by
  have empty : ¬RepeatsFirst [] c := fun h' => h'.not_nodup List.nodup_nil
  cases step with
  | select columns =>
    rw [resolve, Logged.value_bind, value_resolveList_of_repeatsFirst d h]
    rfl
  | groupBy output keys =>
    rw [resolve, Logged.value_bind, value_resolveList_of_repeatsFirst d h]
    rfl
  | deduplicate output keys order =>
    rw [resolve, Logged.value_bind, Logged.value_bind, value_resolveList_of_repeatsFirst d h]
    rfl
  | _ => exact absurd h empty

/-! ### Reasons for a rejection -/

def terms : Step → List Term
  | setColumn _ value => [value]
  | dropColumn _ => []
  | select columns => columns.map NamedTerm.term
  | filter condition => [condition]
  | groupBy output keys => output.map NamedTerm.term ++ keys
  | deduplicate output keys order =>
    output.map NamedTerm.term ++ keys ++ order.map OrderTerm.term

/-- The names that the step gives to columns. -/
def outputNames : Step → List String
  | setColumn name _ => [name]
  | step => step.listed

/-- A column reference is illegal, a fragment is refused, an output name is illegal, or two output
names mean the same column. -/
def RefusedBy (d : Dialect) (step : Step) : Prop :=
  (∃ name, Term.column name ∈ step.terms ∧ d.isLegal name = false) ∨
  (∃ text, Term.sql text ∈ step.terms ∧ Fragment.problem d text ≠ none) ∨
  (∃ name ∈ step.outputNames, d.isLegal name = false) ∨
  ¬step.outputNames.Pairwise fun a b => d.sameColumn a b = false

theorem not_refusedBy_iff (d : Dialect) (step : Step) :
    ¬step.RefusedBy d ↔ (∀ t ∈ step.terms, ¬t.Refused d) ∧ Operation.NamesFit d step.outputNames := by
  have byKind : (∀ t ∈ step.terms, ¬t.Refused d) ↔
      (¬∃ name, Term.column name ∈ step.terms ∧ d.isLegal name = false) ∧
        ¬∃ text, Term.sql text ∈ step.terms ∧ Fragment.problem d text ≠ none := by
    constructor
    · intro all
      exact ⟨fun ⟨name, hm, hl⟩ => all _ hm hl, fun ⟨text, hm, hp⟩ => all _ hm hp⟩
    · rintro ⟨columns, fragments⟩ t ht
      cases t with
      | column name => exact fun hl => columns ⟨name, ht, hl⟩
      | sql text => exact fun hp => fragments ⟨text, ht, hp⟩
  have legal : (∀ name ∈ step.outputNames, d.isLegal name = true) ↔
      ¬∃ name ∈ step.outputNames, d.isLegal name = false := by
    simp only [not_exists, not_and, Bool.not_eq_false]
  rw [RefusedBy, not_or, not_or, not_or, not_not, byKind, Operation.NamesFit, legal, and_assoc]

theorem expressions_operation (d : Dialect) (step : Step) :
    (step.operation d).expressions = step.terms.map (Term.expr d) := by
  have entries (terms : List NamedTerm) :
      (terms.map (NamedTerm.entry d)).map Prod.snd = (terms.map NamedTerm.term).map (Term.expr d) := by
    simp [NamedTerm.entry]
  have items (terms : List OrderTerm) : (terms.map (OrderTerm.item d)).map OrderItem.expr =
      (terms.map OrderTerm.term).map (Term.expr d) := by
    simp [OrderTerm.item]
  cases step with
  | select columns => exact entries columns
  | groupBy output keys =>
    rw [terms, List.map_append, ← entries]
    rfl
  | deduplicate output keys order =>
    rw [terms, List.map_append, List.map_append, ← entries, ← items]
    rfl
  | _ => rfl

theorem givenNames_operation (d : Dialect) (step : Step) :
    (step.operation d).givenNames = step.outputNames := by
  have entries (terms : List NamedTerm) :
      (terms.map (NamedTerm.entry d)).map Prod.fst = terms.map NamedTerm.name := by
    simp [NamedTerm.entry]
  cases step with
  | select columns => exact entries columns
  | groupBy output keys => exact entries output
  | deduplicate output keys order => exact entries output
  | _ => rfl

/-- All expressions of the operation are of the dialect, so that only the reasons above are left. -/
theorem acceptable_operation_iff (d : Dialect) (step : Step) :
    (step.operation d).acceptable d = true ↔ ¬step.RefusedBy d := by
  rw [Operation.acceptable_iff_expressions, expressions_operation, givenNames_operation,
    not_refusedBy_iff, List.forall_mem_map]
  simp only [Term.supportedBy_expr_iff]

theorem rejects_iff {d : Dialect} {step : Step} {r : Relation} (h : r.dialect = d) :
    (∃ e, r.apply (step.operation d) = .error e) ↔ step.RefusedBy d := by
  have acceptable := acceptable_operation_iff d step
  by_cases ha : (step.operation d).acceptable d = true
  · have applied := (Relation.apply_eq_ok_iff r (step.operation d) _).2 ⟨by rw [h]; exact ha, rfl⟩
    refine iff_of_false ?_ (acceptable.1 ha)
    rintro ⟨e, he⟩
    cases applied.symm.trans he
  · have rejected := Relation.apply_of_not_acceptable (r := r) (by rw [h]; exact ha)
    refine iff_of_true ⟨_, rejected⟩ ?_
    by_contra fine
    exact ha (acceptable.2 fine)

end Step

end LayeredSql
