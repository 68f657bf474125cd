import LayeredSql.Proofs.StepResolution

/-!
# Carrying out a plan

A plan can fail in two ways: its base is refused, or a select list of some step names a column twice.
Everything else is carried out as a run of operations on the base, and what is wrong with an operation
shows as a rejection in its slot and in all slots behind it. So the outcome of a plan is read off the
base, the select lists and that run.
-/

namespace LayeredSql

namespace Plan

/-! ### Taking the steps -/

theorem value_takeSteps_of_nodup (d : Dialect) (steps : List Step)
    (h : ∀ step ∈ steps, step.listed.Nodup) (index : Nat) (current : NodeId) (s : Store) :
    (takeSteps d index current s steps).value =
      .ok (s.deriveAll current (steps.map (Step.operation d))).1 := by
  induction steps generalizing index current s with
  | nil => rfl
  | cons step rest ih =>
    have resolved := Step.value_resolve_of_nodup d (h step (by simp))
    rw [takeSteps, Logged.value_bind, resolved]
    exact ih (fun x hx => h x (by simp [hx])) _ _ _

theorem value_takeSteps_of_repeatsFirst (d : Dialect) (front : List Step) {step : Step}
    (back : List Step) {c : String} (h : ∀ earlier ∈ front, earlier.listed.Nodup)
    (hc : RepeatsFirst step.listed c) (index : Nat) (current : NodeId) (s : Store) :
    (takeSteps d index current s (front ++ step :: back)).value =
      .error (.repeatedColumn (index + front.length) c) := by
  induction front generalizing index current s with
  | nil =>
    rw [List.nil_append, takeSteps, Logged.value_bind, Step.value_resolve_of_repeatsFirst d hc]
    rfl
  | cons first rest ih =>
    have resolved := Step.value_resolve_of_nodup d (h first (by simp))
    rw [List.cons_append, takeSteps, Logged.value_bind, resolved, List.length_cons,
      Nat.add_comm rest.length 1, ← Nat.add_assoc]
    exact ih (fun x hx => h x (by simp [hx])) _ _ _

/-- The select list of step `i` is the first that names a column twice, and `c` is the first name in
it that stands there again. -/
def RepeatsFirstAt (p : Plan) (i : Nat) (c : String) : Prop :=
  ∃ front step back, p.steps = front ++ step :: back ∧ front.length = i ∧
    (∀ earlier ∈ front, earlier.listed.Nodup) ∧ RepeatsFirst step.listed c

theorem exists_repeatsFirstAt {p : Plan} (h : ∃ step ∈ p.steps, ¬step.listed.Nodup) :
    ∃ i c, p.RepeatsFirstAt i c := by
  obtain ⟨step, hm, hn⟩ := h
  have some : (p.steps.find? fun step => !decide step.listed.Nodup).isSome := by
    rw [List.find?_isSome]
    exact ⟨step, hm, by simpa using hn⟩
  obtain ⟨first, hf⟩ := Option.isSome_iff_exists.1 some
  obtain ⟨repeats, front, back, split, before⟩ := List.find?_eq_some_iff_append.1 hf
  obtain ⟨c, hc⟩ := exists_repeatsFirst (by simpa using repeats)
  exact ⟨front.length, c, front, first, back, split, rfl, fun x hx => by simpa using before x hx, hc⟩

/-! ### The base -/

/-- The store that holds the base alone. -/
def start (r : Relation) : Store := Store.empty.add (.ok r) none

theorem content?_start (r : Relation) : (start r).content? 0 = some (.ok r) := rfl

theorem slots_start (r : Relation) : (start r).slots = [some 0] := rfl

theorem parentsHeld_start (r : Relation) : (start r).ParentsHeld := by
  intro id node parent hn hp
  rw [start, Store.node?_add] at hn
  split at hn
  · cases hn
    cases hp
  · cases hn

theorem value_baseRelation_eq_ok_iff {p : Plan} {config : Config} {r : Relation} :
    (p.baseRelation config).value = .ok r ↔ ∃ source, p.tableSource config = .ok source ∧
      Relation.ofTable config.dialect source = .ok r := by
  unfold baseRelation
  cases hs : p.tableSource config with
  | error f => exact iff_of_false nofun nofun
  | ok source =>
    have loaded : (Relation.load config.dialect source).value =
        Relation.ofTable config.dialect source := rfl
    rw [Logged.value_bind, loaded]
    cases hb : Relation.ofTable config.dialect source with
    | error f => simp [hb]
    | ok q => simp [hb]

theorem dialect_baseRelation {p : Plan} {config : Config} {r : Relation}
    (h : (p.baseRelation config).value = .ok r) : r.dialect = config.dialect := by
  obtain ⟨source, -, hb⟩ := value_baseRelation_eq_ok_iff.1 h
  obtain ⟨-, rfl⟩ := (Relation.ofTable_eq_ok_iff config.dialect source r).1 hb
  rfl

section Compile

variable {p : Plan} {config : Config}

theorem value_compileSteps_of_error {f : PlanFault} (h : (p.baseRelation config).value = .error f) :
    (p.compileSteps config).value = .error f := by
  rw [compileSteps, Logged.value_bind, h]
  rfl

theorem value_compileSteps_of_nodup {r : Relation} (h : (p.baseRelation config).value = .ok r)
    (hs : ∀ step ∈ p.steps, step.listed.Nodup) :
    (p.compileSteps config).value =
      .ok ((start r).deriveAll 0 (p.steps.map (Step.operation config.dialect))).1 := by
  rw [compileSteps, Logged.value_bind, h]
  exact value_takeSteps_of_nodup config.dialect p.steps hs 0 0 (start r)

theorem value_compileSteps_of_repeatsFirstAt {r : Relation} {i : Nat} {c : String}
    (h : (p.baseRelation config).value = .ok r) (hr : p.RepeatsFirstAt i c) :
    (p.compileSteps config).value = .error (.repeatedColumn i c) := by
  obtain ⟨front, step, back, split, rfl, before, hc⟩ := hr
  have value := value_takeSteps_of_repeatsFirst config.dialect front back before hc 0 0 (start r)
  rw [Nat.zero_add] at value
  rw [compileSteps, Logged.value_bind, h, split]
  exact value

/-- The three outcomes of a plan. -/
theorem compileSteps_cases (p : Plan) (config : Config) :
    (∃ f, (p.baseRelation config).value = .error f ∧ (p.compileSteps config).value = .error f) ∨
    ∃ r, (p.baseRelation config).value = .ok r ∧
      ((∃ i c, p.RepeatsFirstAt i c ∧
          (p.compileSteps config).value = .error (.repeatedColumn i c)) ∨
        (∀ step ∈ p.steps, step.listed.Nodup) ∧ (p.compileSteps config).value =
          .ok ((start r).deriveAll 0 (p.steps.map (Step.operation config.dialect))).1) := by
  cases hb : (p.baseRelation config).value with
  | error f => exact Or.inl ⟨f, rfl, value_compileSteps_of_error hb⟩
  | ok r =>
    refine Or.inr ⟨r, rfl, ?_⟩
    by_cases hs : ∀ step ∈ p.steps, step.listed.Nodup
    · exact Or.inr ⟨hs, value_compileSteps_of_nodup hb hs⟩
    · have some : ∃ step ∈ p.steps, ¬step.listed.Nodup := by simpa using hs
      obtain ⟨i, c, hr⟩ := exists_repeatsFirstAt some
      exact Or.inl ⟨i, c, hr, value_compileSteps_of_repeatsFirstAt hb hr⟩

theorem run_of_ok {t : Store} (h : (p.compileSteps config).value = .ok t) :
    ∃ r, (p.baseRelation config).value = .ok r ∧ (∀ step ∈ p.steps, step.listed.Nodup) ∧
      t = ((start r).deriveAll 0 (p.steps.map (Step.operation config.dialect))).1 := by
  rcases compileSteps_cases p config with ⟨f, -, hf⟩ | ⟨r, hb, ⟨i, c, -, hf⟩ | ⟨hs, ht⟩⟩
  · cases h.symm.trans hf
  · cases h.symm.trans hf
  · cases h.symm.trans ht
    exact ⟨r, hb, hs, rfl⟩

theorem eq_ok_of_toOption {x : Except PlanFault Store} {t : Store} (h : x.toOption = some t) :
    x = .ok t := by
  cases x with
  | error f => cases h
  | ok u => exact congrArg Except.ok (Option.some.inj h)

end Compile

end Plan

/-! ### The first rejection of a run -/

theorem Derived.isValid_eq_true_iff (x : Derived) : x.isValid = true ↔ ∃ r, x = .ok r := by
  cases x with
  | ok r => exact iff_of_true rfl ⟨r, rfl⟩
  | error e => exact iff_of_false nofun nofun

theorem Derived.isValid_eq_false_iff (x : Derived) : x.isValid = false ↔ ∃ e, x = .error e := by
  cases x with
  | ok r => exact iff_of_false nofun nofun
  | error e => exact iff_of_true rfl ⟨e, rfl⟩

section FirstRejection

theorem firstRejectedStep_eq_some_iff {f : Nat → Derived} {n k : Nat}
    (first : (f 0).isValid = true) :
    firstRejectedStep ((List.range (n + 1)).map f) = some k ↔
      k < n ∧ (∀ i ≤ k, (f i).isValid = true) ∧ (f (k + 1)).isValid = false := by
  unfold firstRejectedStep
  rw [Option.map_eq_some_iff]
  simp only [List.findIdx?_eq_some_iff_getElem, List.getElem_map, List.getElem_range,
    List.length_map, List.length_range, Bool.not_eq_true', Bool.not_eq_false]
  constructor
  · rintro ⟨j, ⟨hj, invalid, before⟩, rfl⟩
    -- the base is valid, so the place of the first rejection is not 0
    have positive : j ≠ 0 := by
      rintro rfl
      rw [first] at invalid
      cases invalid
    have succ : j - 1 + 1 = j := by omega
    refine ⟨by omega, fun i hi => before i (by omega), ?_⟩
    rw [succ]
    exact invalid
  · rintro ⟨hk, before, invalid⟩
    exact ⟨k + 1, ⟨by omega, invalid, fun i hi => before i (by omega)⟩, rfl⟩

theorem firstRejectedStep_eq_none_iff {f : Nat → Derived} {n : Nat} :
    firstRejectedStep ((List.range (n + 1)).map f) = none ↔ ∀ i ≤ n, (f i).isValid = true := by
  unfold firstRejectedStep
  simp only [Option.map_eq_none_iff, List.findIdx?_eq_none_iff, List.mem_map, List.mem_range,
    forall_exists_index, and_imp, forall_apply_eq_imp_iff₂, Bool.not_eq_false', Nat.lt_succ_iff]

end FirstRejection

namespace Store

section Run

variable {s : Store} {id : NodeId} {r : Relation} {ops : List Operation}

theorem held?_keepLast (t : Store) (i : Nat) :
    t.keepLast.held? i = if i + 1 = t.slots.length then t.held? i else none := by
  rw [held?, keepLast]
  by_cases hi : i < t.slots.length
  · rw [List.getElem?_map, List.getElem?_range hi]
    rfl
  · have outside : ¬i + 1 = t.slots.length := by omega
    rw [if_neg outside, List.getElem?_eq_none (by simpa using hi)]
    rfl

end Run

end Store

/-! ### The relations of a plan -/

namespace Plan

/-- The base stands in slot 0 and what each step makes of its slot in the next one. All expressions
are of the configured dialect, and a step turns a relation into a rejection for one of the four reasons
in `Step.RefusedBy` only. -/
structure Filled (p : Plan) (config : Config) (t : Store) : Prop where
  count : t.slots.length = p.steps.length + 1
  base : ∃ r, (p.baseRelation config).value = .ok r ∧ t.inSlot? 0 = some (.ok r)
  step : ∀ i step, p.steps[i]? = some step → ∃ x op, t.inSlot? i = some x ∧
    (step.resolve config.dialect).value = .ok op ∧ t.inSlot? (i + 1) = some (x.apply op) ∧
    ∀ e ∈ op.expressions, e.dialect? = some config.dialect
  dialect : ∀ i r, t.inSlot? i = some (.ok r) → r.dialect = config.dialect
  reason : ∀ i step r, p.steps[i]? = some step → t.inSlot? i = some (.ok r) →
    ((∃ e, t.inSlot? (i + 1) = some (.error e)) ↔ step.RefusedBy config.dialect)

section Filled

variable {p : Plan} {config : Config} {r : Relation}

theorem inSlot?_run {i : Nat} (hi : i ≤ p.steps.length) :
    ((start r).deriveAll 0 (p.steps.map (Step.operation config.dialect))).1.inSlot? i =
      some (Derived.applyAll (.ok r) ((p.steps.map (Step.operation config.dialect)).take i)) :=
  Store.inSlot?_deriveAll (content?_start r) (slots_start r) (by simpa using hi)

theorem inSlot?_run_eq_none {i : Nat} (hi : p.steps.length < i) :
    ((start r).deriveAll 0 (p.steps.map (Step.operation config.dialect))).1.inSlot? i = none := by
  have count := Store.length_slots_deriveAll (content?_start r) (slots_start r)
    (p.steps.map (Step.operation config.dialect))
  rw [List.length_map] at count
  rw [Store.inSlot?, Store.held?, List.getElem?_eq_none (by omega)]
  rfl

theorem applyAll_take_succ (x : Derived) (ops : List Operation) (i : Nat) (op : Operation)
    (h : ops[i]? = some op) : x.applyAll (ops.take (i + 1)) = (x.applyAll (ops.take i)).apply op := by
  rw [List.take_add_one, h, Option.toList_some, Derived.applyAll_snoc]

theorem filled_run (h : (p.baseRelation config).value = .ok r)
    (hs : ∀ step ∈ p.steps, step.listed.Nodup) :
    Filled p config ((start r).deriveAll 0 (p.steps.map (Step.operation config.dialect))).1 := by
  have next (i : Nat) (step : Step) (hi : p.steps[i]? = some step) :=
    applyAll_take_succ (.ok r) (p.steps.map (Step.operation config.dialect)) i
      (step.operation config.dialect) (by rw [List.getElem?_map, hi]; rfl)
  have bound (i : Nat) (step : Step) (hi : p.steps[i]? = some step) : i + 1 ≤ p.steps.length :=
    (List.getElem?_eq_some_iff.1 hi).1
  have dialect (i : Nat) (q : Relation) (hq : ((start r).deriveAll 0
      (p.steps.map (Step.operation config.dialect))).1.inSlot? i = some (.ok q)) :
      q.dialect = config.dialect := by
    by_cases hi : i ≤ p.steps.length
    · rw [inSlot?_run hi, Option.some.injEq] at hq
      rw [Relation.dialect_of_applyAll hq, dialect_baseRelation h]
    · rw [inSlot?_run_eq_none (by omega)] at hq
      cases hq
  refine ⟨?_, ⟨r, h, ?_⟩, ?_, dialect, ?_⟩
  · rw [Store.length_slots_deriveAll (content?_start r) (slots_start r), List.length_map]
  · exact inSlot?_run (Nat.zero_le _)
  · intro i step hi
    refine ⟨_, _, inSlot?_run (by have := bound i step hi; omega),
      Step.value_resolve_of_nodup config.dialect (hs step (List.mem_of_getElem? hi)), ?_, ?_⟩
    · rw [inSlot?_run (bound i step hi), next i step hi]
    · rw [Step.expressions_operation, List.forall_mem_map]
      exact fun t _ => t.dialect?_expr config.dialect
  · intro i step q hi hq
    have own := dialect i q hq
    rw [inSlot?_run (by have := bound i step hi; omega), Option.some.injEq] at hq
    rw [inSlot?_run (bound i step hi), next i step hi, hq, ← Step.rejects_iff own]
    simp only [Option.some.injEq]
    rfl

end Filled

theorem filled_of_ok {p : Plan} {config : Config} {t : Store}
    (h : (p.compileSteps config).value = .ok t) : Filled p config t := by
  obtain ⟨r, hb, hs, rfl⟩ := run_of_ok h
  exact filled_run hb hs

theorem value_compile_of_ok {p : Plan} {config : Config} {t : Store}
    (h : (p.compileSteps config).value = .ok t) : (p.compile config).value = .ok t.keepLast := by
  have held : t.slots ≠ [] := by
    rw [← List.length_pos_iff, (filled_of_ok h).count]
    exact Nat.succ_pos _
  rw [compile, Logged.value_bind, h]
  simp [held]

/-- Keeping the last slot alone keeps what it holds. -/
theorem compile_of_ok {p : Plan} {config : Config} {t : Store}
    (h : (p.compileSteps config).value = .ok t) {x : Derived}
    (hx : t.inSlot? p.steps.length = some x) :
    ∃ u, (p.compile config).value = .ok u ∧ u.held? p.steps.length = t.held? p.steps.length ∧
      u.inSlot? p.steps.length = some x ∧ ∀ i, i ≠ p.steps.length → u.held? i = none := by
  have count := (filled_of_ok h).count
  have last : t.keepLast.held? p.steps.length = t.held? p.steps.length := by
    rw [Store.held?_keepLast, if_pos count.symm]
  refine ⟨t.keepLast, value_compile_of_ok h, last, ?_, ?_⟩
  · rw [Store.inSlot?, last]
    exact hx
  · intro i hi
    have other : ¬i + 1 = t.slots.length := by
      rw [count]
      omega
    rw [Store.held?_keepLast, if_neg other]

-- the second step is reported although the first one is rejected
example : (compileSteps ⟨⟨none, some "d", "t", "ds", ["id"]⟩,
      [.setColumn "" (.column "id"), .select [⟨"a", .column "id"⟩, ⟨"a", .sql "1"⟩]]⟩
    ⟨.postgreSql, none, none⟩).value = .error (.repeatedColumn 1 "a") := by
  rfl

end Plan

end LayeredSql
