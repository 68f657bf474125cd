import LayeredSql.Proofs.PlanRuns
import Mathlib.Data.List.Forall2

/-!
# What is reported while a plan is carried out

Two kinds of event are mixed in the log of a plan. Those about relations follow the run: the base, each
relation that a step yields, and at most one rejection with a warning behind it. The others tell of the
expressions that the steps ask for and that the dialect refuses, whether or not the run has come to a
rejection before. References to the columns of a relation are made anew by many operations, and nothing
is reported about them since the columns are legal.
-/

namespace LayeredSql

@[simp] theorem Logged.events_map {α β : Type} (f : α → β) (x : Logged α) :
    (f <$> x).events = x.events :=
  List.append_nil x.events

theorem Logged.events_mapM {α β : Type} (f : α → Logged β) (xs : List α) :
    (xs.mapM f).events = xs.flatMap fun x => (f x).events := by
  induction xs with
  | nil => rfl
  | cons x xs ih =>
    rw [List.mapM_cons, events_bind, events_bind, ih, List.flatMap_cons]
    simp

/-! ### Refused expressions -/

namespace Term

/-- The event names the cause for which the dialect refuses the term. -/
def ToldBy (d : Dialect) : Term → Event → Prop
  | column name, event => d.isLegal name = false ∧ event = .illegalIdentifier d name
  | sql text, event => ∃ problem, Fragment.problem d text = some problem ∧
      event = .refusedFragment d problem

theorem events_resolve_of_isValid {d : Dialect} {t : Term} (h : (t.expr d).isValid = true) :
    (t.resolve d).events = [] := by
  cases t with
  | column name =>
    have legal : d.isLegal name = true := by
      by_contra illegal
      simp [expr, Expr.ofColumn, illegal, Expr.isValid] at h
    exact if_pos legal
  | sql text =>
    have fine : Fragment.problem d text = none := by
      by_contra refused
      simp [expr, Expr.ofFragment, refused, Expr.isValid] at h
    simp [resolve, Expr.fragment, fine]

theorem events_resolve_of_not_isValid {d : Dialect} {t : Term} (h : ¬(t.expr d).isValid = true) :
    ∃ event, (t.resolve d).events = [event] ∧ t.ToldBy d event := by
  cases t with
  | column name =>
    have illegal : ¬d.isLegal name = true := by
      intro legal
      exact h (Expr.ofColumn_of_isLegal legal).2.1
    exact ⟨_, if_neg illegal, Bool.not_eq_true _ ▸ illegal, rfl⟩
  | sql text =>
    cases hp : Fragment.problem d text with
    | none => simp [expr, Expr.ofFragment, hp, Expr.isValid] at h
    | some problem => exact ⟨_, by simp [resolve, Expr.fragment, hp], problem, hp, rfl⟩

end Term

theorem events_resolveAll (d : Dialect) (terms : List Term) :
    (resolveAll d terms).events = terms.flatMap fun t => (t.resolve d).events :=
  Logged.events_mapM (Term.resolve d) terms

theorem events_resolveOrder (d : Dialect) (terms : List OrderTerm) :
    (resolveOrder d terms).events = terms.flatMap fun t => (t.term.resolve d).events := by
  rw [resolveOrder, Logged.events_mapM]
  simp

theorem events_resolveOnto_of_nodup {d : Dialect} {l : SelectList} (terms : List NamedTerm)
    (h : (l.names ++ terms.map NamedTerm.name).Nodup) :
    (resolveOnto d l terms).events = terms.flatMap fun t => (t.term.resolve d).events := by
  induction terms generalizing l with
  | nil => rfl
  | cons t rest ih =>
    have fresh : t.name ∉ l.names := by
      intro hm
      exact (List.nodup_append.1 h).2.2 t.name hm t.name (by simp) rfl
    have names : (l.insert t.name (t.term.resolve d).value).names = l.names ++ [t.name] := by
      rw [SelectList.insert, SelectList.insertEntry_of_not_mem _ _ _ fresh]
      simp [SelectList.names]
    have new : ¬l.contains t.name = true := by
      rw [SelectList.contains_iff]
      exact fresh
    rw [resolveOnto, if_neg new, Logged.events_bind, ih (by simpa [names] using h),
      List.flatMap_cons]

theorem events_resolveList_of_nodup (d : Dialect) {terms : List NamedTerm}
    (h : (terms.map NamedTerm.name).Nodup) :
    (resolveList d terms).events = terms.flatMap fun t => (t.term.resolve d).events :=
  events_resolveOnto_of_nodup (l := .empty) terms h

namespace Step

/-- The terms of the step in the order in which expressions are made of them. -/
def madeTerms : Step → List Term
  | deduplicate output keys order =>
    order.map OrderTerm.term ++ output.map NamedTerm.term ++ keys
  | step => step.terms

theorem events_resolve_of_nodup (d : Dialect) {step : Step} (h : step.listed.Nodup) :
    (step.resolve d).events = step.madeTerms.flatMap fun t => (t.resolve d).events := by
  cases step with
  | setColumn name value => simp [resolve, madeTerms, terms]
  | dropColumn name => rfl
  | select columns =>
    rw [resolve, Logged.events_bind, value_resolveList_of_nodup d h, events_resolveList_of_nodup d h]
    simp [madeTerms, terms, List.flatMap_map]
  | filter condition => simp [resolve, madeTerms, terms]
  | groupBy output keys =>
    rw [resolve, Logged.events_bind, value_resolveList_of_nodup d h, events_resolveList_of_nodup d h]
    simp [madeTerms, terms, List.flatMap_map, events_resolveAll]
  | deduplicate output keys order =>
    rw [resolve, Logged.events_bind, Logged.events_bind, value_resolveList_of_nodup d h,
      events_resolveList_of_nodup d h, events_resolveOrder]
    simp [madeTerms, List.flatMap_map, events_resolveAll]

end Step

/-! ### One operation -/

/-- A relation of the dialect whose columns it accepts, or a rejection. -/
def Derived.FitsIn (d : Dialect) (x : Derived) : Prop :=
  ∀ r, x = .ok r → r.dialect = d ∧ d.acceptsColumns r.columns = true

theorem Derived.FitsIn.apply {d : Dialect} {x : Derived} (h : x.FitsIn d) (op : Operation) :
    (x.apply op).FitsIn d := by
  intro t ht
  obtain ⟨r, hx, happ⟩ := (x.apply_eq_ok_iff op t).1 ht
  obtain ⟨rfl, columns⟩ := h r hx
  obtain ⟨ha, rfl⟩ := (r.apply_eq_ok_iff op t).1 happ
  exact ⟨rfl, Relation.acceptsColumns_outputList columns ha⟩

namespace Relation

theorem referenceEvents_of_acceptsColumns {d : Dialect} {columns : List String}
    (h : d.acceptsColumns columns = true) : referenceEvents d columns = [] := by
  rw [referenceEvents, List.flatMap_eq_nil_iff]
  intro column hc
  exact if_pos (((Dialect.acceptsColumns_iff d columns).1 h).1 column hc)

theorem fitsIn_ofTable {d : Dialect} {s : TableSource} {r : Relation} (h : ofTable d s = .ok r) :
    Derived.FitsIn d (.ok r) := by
  intro q hq
  cases hq
  have reached := Reached.nil_iff.2 h
  exact ⟨reached.dialect_eq, reached.dialect_eq ▸ reached.acceptsColumns⟩

theorem events_load {d : Dialect} {s : TableSource} {r : Relation} (h : ofTable d s = .ok r) :
    (load d s).events = [.createdBase d (s.reference d) r.columns.length] := by
  obtain ⟨fault, -⟩ := (ofTable_eq_ok_iff d s r).1 h
  have silent := referenceEvents_of_acceptsColumns (TableSource.acceptsColumns_of_fault_eq_none fault)
  rw [load, h, silent]
  rfl

theorem events_perform {d : Dialect} {r : Relation} (h : Derived.FitsIn d (.ok r))
    (op : Operation) : (r.perform op).events = [op.outcome (r.apply op)] := by
  obtain ⟨rfl, columns⟩ := h r rfl
  rw [perform, referenceEvents_of_acceptsColumns columns, ite_self]
  rfl

end Relation

section Derive

variable {s : Store} {id : NodeId}

theorem Store.events_derive_of_ok {d : Dialect} {r : Relation} (h : s.content? id = some (.ok r))
    (hr : Derived.FitsIn d (.ok r)) (op : Operation) :
    (s.derive id op).events = [op.outcome (r.apply op)] := by
  unfold derive
  rw [h, Logged.events_bind, Relation.events_perform hr]
  split <;> rfl

theorem Store.events_derive_of_error {e : Rejection} (h : s.content? id = some (.error e))
    (op : Operation) : (s.derive id op).events = [] := by
  unfold derive
  rw [h]
  rfl

end Derive

/-! ### The log of the steps -/

namespace Plan

def operationEvents (index : Nat) (op : Operation) : Derived → List Event
  | .ok r => op.outcome (r.apply op) :: rejectionEvents index (some (.ok r)) (some (r.apply op))
  | .error _ => []

/-- What is reported by steps, the first of which has the given index and finds `x`. -/
def stepEvents (d : Dialect) (index : Nat) (x : Derived) : List Step → List Event
  | [] => []
  | step :: rest =>
    step.madeTerms.flatMap (fun t => (t.resolve d).events) ++
      operationEvents index (step.operation d) x ++
      stepEvents d (index + 1) (x.apply (step.operation d)) rest

theorem events_takeSteps {d : Dialect} {x : Derived} {current : NodeId} {s : Store}
    {steps : List Step} (h : s.content? current = some x) (fits : x.FitsIn d)
    (hs : ∀ step ∈ steps, step.listed.Nodup) (index : Nat) :
    (takeSteps d index current s steps).events = stepEvents d index x steps := by
  induction steps generalizing index current s x with
  | nil => rfl
  | cons step rest ih =>
    have made := Step.events_resolve_of_nodup d (hs step (by simp))
    have next := Store.content?_derive h (step.operation d)
    have behind := ih next (fits.apply _) (fun later hl => hs later (by simp [hl])) (index + 1)
    have reported : (s.derive current (step.operation d)).events ++
        rejectionEvents index (some x) (some (x.apply (step.operation d))) =
          operationEvents index (step.operation d) x := by
      cases x with
      | ok r =>
        rw [Store.events_derive_of_ok h fits]
        rfl
      | error e =>
        rw [Store.events_derive_of_error h]
        rfl
    rw [takeSteps, Logged.events_bind, made, Step.value_resolve_of_nodup d (hs step (by simp)),
      stepEvents, ← behind, ← reported]
    simp [Logged.reportAll, h, next]

theorem events_compileSteps {p : Plan} {config : Config} {source : TableSource} {r : Relation}
    (hs : p.tableSource config = .ok source) (hr : Relation.ofTable config.dialect source = .ok r)
    (nodup : ∀ step ∈ p.steps, step.listed.Nodup) :
    (p.compileSteps config).events =
      .createdBase config.dialect (source.reference config.dialect) r.columns.length ::
        stepEvents config.dialect 0 (.ok r) p.steps := by
  have base : (p.baseRelation config).events =
      [.createdBase config.dialect (source.reference config.dialect) r.columns.length] := by
    unfold baseRelation
    rw [hs, Logged.events_bind, Relation.events_load hr]
    split <;> rfl
  have value := value_baseRelation_eq_ok_iff.2 ⟨source, hs, hr⟩
  have steps := events_takeSteps (content?_start r) (Relation.fitsIn_ofTable hr) nodup 0
  rw [compileSteps, Logged.events_bind, base, value, ← steps]
  rfl

end Plan

/-! ### Events about relations and events about expressions -/

def Event.isOfRelation : Event → Bool
  | createdBase .. | compiledRelation .. | rejectedOperation .. | rejectedStep .. => true
  | illegalIdentifier .. | refusedFragment .. | loadedConfig .. => false

theorem Event.level_eq_debug {event : Event} (h : event.isOfRelation = false) :
    event.level = .debug := by
  cases event with
  | rejectedStep step error => cases h
  | _ => rfl

/-- The report on each relation of the list that is no rejection, with depths from the given one on. -/
def compiledEvents (depth : Nat) (relations : List Derived) : List Event :=
  ((relations.filterMap Except.toOption).zipIdx depth).map fun (r, depth) =>
    .compiledRelation r.operation r.columns.length depth

theorem isOfRelation_of_toldBy {d : Dialect} {t : Term} {event : Event} (h : t.ToldBy d event) :
    event.isOfRelation = false := by
  cases t with
  | column name =>
    obtain ⟨-, rfl⟩ := h
    rfl
  | sql text =>
    obtain ⟨problem, -, rfl⟩ := h
    rfl

theorem forall₂_toldBy (d : Dialect) (terms : List Term) :
    List.Forall₂ (Term.ToldBy d) (terms.filter fun t => !(t.expr d).isValid)
      (terms.flatMap fun t => (t.resolve d).events) := by
  induction terms with
  | nil => exact .nil
  | cons t rest ih =>
    rw [List.flatMap_cons, List.filter_cons]
    by_cases h : (t.expr d).isValid = true
    · rw [Term.events_resolve_of_isValid h]
      simpa [h] using ih
    · obtain ⟨event, events, told⟩ := Term.events_resolve_of_not_isValid h
      rw [events]
      simpa [h] using ⟨told, ih⟩

theorem isOfRelation_of_mem_made {d : Dialect} {terms : List Term} {event : Event}
    (h : event ∈ terms.flatMap fun t => (t.resolve d).events) : event.isOfRelation = false := by
  obtain ⟨t, -, told⟩ := List.mem_flatMap.1 h
  by_cases ht : (t.expr d).isValid = true
  · rw [Term.events_resolve_of_isValid ht] at told
    cases told
  · obtain ⟨only, events, toldBy⟩ := Term.events_resolve_of_not_isValid ht
    rw [events, List.mem_singleton] at told
    exact told ▸ isOfRelation_of_toldBy toldBy

theorem compiledEvents_append_of_error {front behind : List Derived}
    (h : ∀ x ∈ behind, ∃ e, x = .error e) (depth : Nat) :
    compiledEvents depth (front ++ behind) = compiledEvents depth front := by
  have none : behind.filterMap Except.toOption = [] := by
    rw [List.filterMap_eq_nil_iff]
    intro x hx
    obtain ⟨e, rfl⟩ := h x hx
    rfl
  rw [compiledEvents, compiledEvents, List.filterMap_append, none, List.append_nil]

theorem level_of_mem_compiledEvents {depth : Nat} {relations : List Derived} {event : Event}
    (h : event ∈ compiledEvents depth relations) : event.level = .debug := by
  obtain ⟨-, -, rfl⟩ := List.mem_map.1 h
  rfl

theorem filter_warn_eq_nil {log : List Event} {depth : Nat} {relations : List Derived}
    (h : log.filter Event.isOfRelation = compiledEvents depth relations) :
    log.filter (fun event => event.level = .warn) = [] := by
  rw [List.filter_eq_nil_iff]
  intro event hm
  -- the only warning is about a rejected step, which is an event about a relation
  have debug : event.level = .debug := by
    cases about : event.isOfRelation with
    | false => exact Event.level_eq_debug about
    | true => exact level_of_mem_compiledEvents (h ▸ List.mem_filter.2 ⟨hm, about⟩)
  simp [debug]

namespace Plan

theorem isOfRelation_of_mem_operationEvents {index : Nat} {op : Operation} {x : Derived}
    {event : Event} (h : event ∈ operationEvents index op x) : event.isOfRelation = true := by
  cases x with
  | error e => cases h
  | ok r =>
    cases ha : r.apply op with
    | ok q => simp_all [operationEvents, rejectionEvents, Operation.outcome, Event.isOfRelation]
    | error e =>
      simp only [operationEvents, ha, rejectionEvents, Operation.outcome, List.mem_cons,
        List.not_mem_nil, or_false] at h
      rcases h with rfl | rfl <;> rfl

theorem filter_made (d : Dialect) (terms : List Term) :
    (terms.flatMap fun t => (t.resolve d).events).filter Event.isOfRelation = [] := by
  rw [List.filter_eq_nil_iff]
  intro event hm
  rw [isOfRelation_of_mem_made hm]
  exact Bool.false_ne_true

theorem filter_not_stepEvents (d : Dialect) (index : Nat) (x : Derived) (steps : List Step) :
    (stepEvents d index x steps).filter (fun event => !event.isOfRelation) =
      (steps.flatMap Step.madeTerms).flatMap fun t => (t.resolve d).events := by
  induction steps generalizing index x with
  | nil => rfl
  | cons step rest ih =>
    have made : (step.madeTerms.flatMap fun t => (t.resolve d).events).filter
        (fun event => !event.isOfRelation) =
          step.madeTerms.flatMap fun t => (t.resolve d).events := by
      rw [List.filter_eq_self]
      intro event hm
      rw [isOfRelation_of_mem_made hm]
      rfl
    have operation : (operationEvents index (step.operation d) x).filter
        (fun event => !event.isOfRelation) = [] := by
      rw [List.filter_eq_nil_iff]
      intro event hm
      rw [isOfRelation_of_mem_operationEvents hm]
      exact Bool.false_ne_true
    rw [stepEvents, List.filter_append, List.filter_append, made, operation, ih,
      List.append_nil, List.flatMap_cons, List.flatMap_append]

theorem stepEvents_append (d : Dialect) (index : Nat) (x : Derived) (front back : List Step) :
    stepEvents d index x (front ++ back) = stepEvents d index x front ++
      stepEvents d (index + front.length) (x.applyAll (front.map (Step.operation d))) back := by
  induction front generalizing index x with
  | nil => rfl
  | cons step rest ih =>
    rw [List.cons_append, stepEvents, ih, stepEvents, List.length_cons, List.append_assoc,
      List.append_assoc, List.append_assoc, Nat.add_assoc, Nat.add_comm 1]
    rfl

theorem filter_stepEvents_of_error (d : Dialect) (index : Nat) (e : Rejection) (steps : List Step) :
    (stepEvents d index (.error e) steps).filter Event.isOfRelation = [] := by
  induction steps generalizing index with
  | nil => rfl
  | cons step rest ih =>
    rw [stepEvents, List.filter_append, List.filter_append, filter_made]
    exact ih (index + 1)

theorem scanl_eq_cons (x : Derived) (ops : List Operation) :
    ops.scanl Derived.apply x = x :: (ops.scanl Derived.apply x).tail := by
  cases ops <;> simp

theorem scanl_of_error (e : Rejection) (ops : List Operation) :
    ∀ x ∈ ops.scanl Derived.apply (.error e), ∃ e, x = .error e := by
  intro x hx
  obtain ⟨i, hi⟩ := List.mem_iff_getElem?.1 hx
  rw [List.getElem?_scanl] at hi
  split at hi
  · exact ⟨e, (Option.some.inj hi).symm.trans (Derived.applyAll_error e _)⟩
  · cases hi

theorem filter_stepEvents_of_ok {d : Dialect} {r t : Relation} {steps : List Step}
    (h : Derived.applyAll (.ok r) (steps.map (Step.operation d)) = .ok t) :
    (stepEvents d r.depth (.ok r) steps).filter Event.isOfRelation =
      compiledEvents (r.depth + 1)
        ((steps.map (Step.operation d)).scanl Derived.apply (.ok r)).tail := by
  -- on the steps, from the relation that they find: its depth is the index of the first of them
  induction steps generalizing r with
  | nil => rfl
  | cons step rest ih =>
    have first : Derived.applyAll (r.apply (step.operation d)) (rest.map (Step.operation d)) =
        .ok t := h
    cases ha : r.apply (step.operation d) with
    | error e =>
      rw [ha, Derived.applyAll_error] at first
      cases first
    | ok q =>
      rw [ha] at first
      obtain ⟨-, made⟩ := (r.apply_eq_ok_iff (step.operation d) q).1 ha
      have depth : q.depth = r.depth + 1 := by rw [made]
      have kind : q.operation = (step.operation d).kind := by rw [made]
      have applied : Derived.apply (.ok r) (step.operation d) = .ok q := ha
      have reported : operationEvents r.depth (step.operation d) (.ok r) =
          [.compiledRelation q.operation q.columns.length (r.depth + 1)] := by
        rw [operationEvents, ha, kind, ← depth]
        rfl
      have behind := ih first
      rw [depth] at behind
      rw [stepEvents, List.filter_append, List.filter_append, filter_made, reported, applied, behind,
        List.map_cons, List.scanl_cons, List.tail_cons, applied, scanl_eq_cons]
      rfl

section Log

variable {p : Plan} {config : Config} {r : Relation} {t : Store}

theorem contents_run :
    ((start r).deriveAll 0 (p.steps.map (Step.operation config.dialect))).1.contents =
      (p.steps.map (Step.operation config.dialect)).scanl Derived.apply (.ok r) := by
  rw [Store.contents_deriveAll (content?_start r) (slots_start r)]
  refine List.ext_getElem? fun i => ?_
  rw [List.getElem?_scanl, List.getElem?_map]
  split
  · rw [List.getElem?_range (by omega)]
    rfl
  · rw [List.getElem?_eq_none (by rw [List.length_range]; omega)]
    rfl

theorem exists_split_of_rejected {k : Nat} (h : firstRejectedStep ((start r).deriveAll 0
      (p.steps.map (Step.operation config.dialect))).1.contents = some k) :
    ∃ front step back q e, p.steps = front ++ step :: back ∧ front.length = k ∧
      Derived.applyAll (.ok r) (front.map (Step.operation config.dialect)) = .ok q ∧
      q.apply (step.operation config.dialect) = .error e := by
  rw [Store.contents_deriveAll (content?_start r) (slots_start r),
    firstRejectedStep_eq_some_iff rfl, List.length_map] at h
  obtain ⟨hk, valid, invalid⟩ := h
  have split := (List.take_append_drop k p.steps).symm
  rw [List.drop_eq_getElem_cons hk] at split
  have here : (p.steps.map (Step.operation config.dialect))[k]? =
      some (p.steps[k].operation config.dialect) := by
    rw [List.getElem?_map, List.getElem?_eq_getElem hk]
    rfl
  obtain ⟨q, before⟩ := (Derived.isValid_eq_true_iff _).1 (valid k (Nat.le_refl k))
  rw [applyAll_take_succ _ _ _ _ here, before] at invalid
  obtain ⟨e, rejected⟩ := (Derived.isValid_eq_false_iff _).1 invalid
  rw [← List.map_take] at before
  exact ⟨_, _, _, q, e, split, List.length_take_of_le (Nat.le_of_lt hk), before, rejected⟩

/-- What the steps report, given the relations that the plan leads to. The events about relations are
one for each relation behind the base and, if a step is rejected, two for the rejection, which stand
next to each other and end them; only the second one is a warning. The other events tell of the refused
expressions, one for each in order. -/
structure StepLog (d : Dialect) (steps : List Step) (t : Store) (log : List Event) : Prop where
  accepted : firstRejectedStep t.contents = none →
    log.filter Event.isOfRelation = compiledEvents 1 t.contents.tail ∧
    log.filter (fun event => event.level = .warn) = []
  rejected : ∀ k, firstRejectedStep t.contents = some k → ∃ step e front back,
    steps[k]? = some step ∧ t.inSlot? (k + 1) = some (.error e) ∧
    log = front ++ [.rejectedOperation (step.operation d).kind e, .rejectedStep k e] ++ back ∧
    front.filter Event.isOfRelation = compiledEvents 1 t.contents.tail ∧
    back.filter Event.isOfRelation = [] ∧
    log.filter (fun event => event.level = .warn) = [.rejectedStep k e]
  others : List.Forall₂ (Term.ToldBy d)
    ((steps.flatMap Step.madeTerms).filter fun term => !(term.expr d).isValid)
    (log.filter fun event => !event.isOfRelation)

theorem stepLog_accepted (hr : r.depth = 0) (h : firstRejectedStep ((start r).deriveAll 0
      (p.steps.map (Step.operation config.dialect))).1.contents = none) :
    (stepEvents config.dialect 0 (.ok r) p.steps).filter Event.isOfRelation =
      compiledEvents 1 ((start r).deriveAll 0
        (p.steps.map (Step.operation config.dialect))).1.contents.tail := by
  rw [Store.contents_deriveAll (content?_start r) (slots_start r), firstRejectedStep_eq_none_iff] at h
  obtain ⟨t, last⟩ := (Derived.isValid_eq_true_iff _).1 (h _ (Nat.le_refl _))
  rw [List.take_length] at last
  have events := filter_stepEvents_of_ok last
  rw [hr] at events
  rw [events, contents_run]

theorem stepLog_rejected (hr : r.depth = 0) {k : Nat} (h : firstRejectedStep ((start r).deriveAll 0
      (p.steps.map (Step.operation config.dialect))).1.contents = some k) :
    ∃ step e front back, p.steps[k]? = some step ∧
      ((start r).deriveAll 0 (p.steps.map (Step.operation config.dialect))).1.inSlot? (k + 1) =
        some (.error e) ∧
      stepEvents config.dialect 0 (.ok r) p.steps = front ++
        [.rejectedOperation (step.operation config.dialect).kind e, .rejectedStep k e] ++ back ∧
      front.filter Event.isOfRelation = compiledEvents 1 ((start r).deriveAll 0
        (p.steps.map (Step.operation config.dialect))).1.contents.tail ∧
      back.filter Event.isOfRelation = [] := by
  obtain ⟨first, step, rest, q, e, split, rfl, before, rejected⟩ := exists_split_of_rejected h
  have here : p.steps[first.length]? = some step := by
    rw [split]
    simp
  have made : Derived.applyAll (.ok r)
      ((p.steps.map (Step.operation config.dialect)).take (first.length + 1)) = .error e := by
    rw [applyAll_take_succ _ _ _ (step.operation config.dialect) (by rw [List.getElem?_map, here]; rfl),
      split, List.map_append, List.take_left' (List.length_map _), before]
    exact rejected
  have reported : operationEvents first.length (step.operation config.dialect) (.ok q) =
      [.rejectedOperation (step.operation config.dialect).kind e, .rejectedStep first.length e] := by
    rw [operationEvents, rejected]
    rfl
  have compiled := filter_stepEvents_of_ok before
  rw [hr] at compiled
  refine ⟨step, e, stepEvents config.dialect 0 (.ok r) first ++
      step.madeTerms.flatMap (fun t => (t.resolve config.dialect).events),
    stepEvents config.dialect (first.length + 1) (.error e) rest, here, ?_, ?_, ?_, ?_⟩
  · rw [inSlot?_run (by rw [split]; simp), made]
  · have next : Derived.apply (.ok q) (step.operation config.dialect) = .error e := rejected
    rw [split, stepEvents_append, before, Nat.zero_add, stepEvents, reported, next]
    simp
  · have contents : (p.steps.map (Step.operation config.dialect)).scanl Derived.apply (.ok r) =
        (first.map (Step.operation config.dialect)).scanl Derived.apply (.ok r) ++
          (rest.map (Step.operation config.dialect)).scanl Derived.apply (.error e) := by
      rw [split, List.map_append, List.map_cons, List.scanl_append, List.scanl_cons, List.tail_cons]
      congr 2
      exact (congrArg (fun x => Derived.apply x (step.operation config.dialect)) before).trans rejected
    rw [List.filter_append, filter_made, List.append_nil, compiled, contents_run, contents,
      List.tail_append_of_ne_nil List.scanl_ne_nil,
      compiledEvents_append_of_error (scanl_of_error e _)]
  · exact filter_stepEvents_of_error config.dialect _ e rest

/-- A plan that can be carried out reports its base first and then what its steps report. -/
theorem compileSteps_reports_steps (h : (p.compileSteps config).value = .ok t) :
    ∃ source r log, p.tableSource config = .ok source ∧ t.inSlot? 0 = some (.ok r) ∧
      (p.compileSteps config).events =
        .createdBase config.dialect (source.reference config.dialect) r.columns.length :: log ∧
      StepLog config.dialect p.steps t log := by
  obtain ⟨r, hr, nodup, rfl⟩ := run_of_ok h
  obtain ⟨source, hs, hb⟩ := value_baseRelation_eq_ok_iff.1 hr
  have depth : r.depth = 0 := by
    obtain ⟨-, rfl⟩ := (Relation.ofTable_eq_ok_iff config.dialect source r).1 hb
    rfl
  refine ⟨source, r, _, hs, inSlot?_run (Nat.zero_le _), events_compileSteps hs hb nodup, ?_, ?_, ?_⟩
  · intro none
    have compiled := stepLog_accepted depth none
    exact ⟨compiled, filter_warn_eq_nil compiled⟩
  · intro k rejected
    obtain ⟨step, e, front, back, here, made, split, compiled, silent⟩ :=
      stepLog_rejected depth rejected
    refine ⟨step, e, front, back, here, made, split, compiled, silent, ?_⟩
    have empty : compiledEvents 0 [] = [] := rfl
    have noneBehind := filter_warn_eq_nil (silent.trans empty.symm)
    rw [split, List.filter_append, List.filter_append, filter_warn_eq_nil compiled, noneBehind]
    rfl
  · rw [filter_not_stepEvents]
    exact forall₂_toldBy config.dialect _

/-- The second step is rejected for the name it gives. The third one asks for a column and a fragment
that are refused, which is reported all the same. -/
theorem compileSteps_reports_steps_behind_rejection :
    ∃ p t log, p = (⟨⟨none, some "d", "t", "ds", ["id", "name"]⟩,
        [.filter (.sql "id > 1"), .setColumn "" (.column "id"),
          .select [⟨"a", .column ""⟩, ⟨"b", .sql "'"⟩]]⟩ : Plan) ∧
      (p.compileSteps ⟨.postgreSql, none, none⟩).value = .ok t ∧
      firstRejectedStep t.contents = some 1 ∧
      log = [.compiledRelation .filter 2 1, .rejectedOperation .setColumn .unsupportedExpression,
        .rejectedStep 1 .unsupportedExpression, .illegalIdentifier .postgreSql "",
        .refusedFragment .postgreSql .unterminated] ∧
      StepLog .postgreSql p.steps t log := by
  have rejected : ((compileSteps ⟨⟨none, some "d", "t", "ds", ["id", "name"]⟩,
      [.filter (.sql "id > 1"), .setColumn "" (.column "id"),
        .select [⟨"a", .column ""⟩, ⟨"b", .sql "'"⟩]]⟩
      ⟨.postgreSql, none, none⟩).value.toOption.bind fun t => firstRejectedStep t.contents) =
        some 1 := by
    decide +kernel
  have reported : (compileSteps ⟨⟨none, some "d", "t", "ds", ["id", "name"]⟩,
      [.filter (.sql "id > 1"), .setColumn "" (.column "id"),
        .select [⟨"a", .column ""⟩, ⟨"b", .sql "'"⟩]]⟩ ⟨.postgreSql, none, none⟩).events.tail =
      [.compiledRelation .filter 2 1, .rejectedOperation .setColumn .unsupportedExpression,
        .rejectedStep 1 .unsupportedExpression, .illegalIdentifier .postgreSql "",
        .refusedFragment .postgreSql .unterminated] := by
    decide +kernel
  obtain ⟨t, value, first⟩ := Option.bind_eq_some_iff.1 rejected
  have compiled := eq_ok_of_toOption value
  obtain ⟨source, r, log, -, -, events, steps⟩ := compileSteps_reports_steps compiled
  rw [events, List.tail_cons] at reported
  exact ⟨_, t, log, rfl, compiled, first, reported, steps⟩

end Log

end Plan

end LayeredSql
