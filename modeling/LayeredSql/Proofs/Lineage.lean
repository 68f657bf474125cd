import LayeredSql.Proofs.Nesting
import LayeredSql.Proofs.PlanRuns
import Mathlib.Data.List.TakeWhile

/-!
# Lineage while handles come and go

Handles are opened on stored tables, on rejections, on what an operation yields and on what another
handle holds, and they are released, in any order. A node never keeps the node it was derived from
alive. What a node was derived from is therefore a fact about the past of a run, and its lineage is as
much of that past as is still held without a gap.
-/

namespace LayeredSql

/-- What can be done with handles. An operation, a copy and a release name the slot they work on. -/
inductive Action where
  | load (dialect : Dialect) (source : TableSource)
  | reject (error : Rejection)
  | derive (slot : Nat) (op : Operation)
  | copy (slot : Nat)
  | release (slot : Nat)

namespace Store

/-- The store after an action. A table that is refused leaves an empty slot behind, and on an empty
slot there is nothing to derive from or to copy. -/
def act (s : Store) : Action → Store
  | .load d source =>
    match (Relation.load d source).value with
    | .ok r => s.add (.ok r) none
    | .error _ => s.skip
  | .reject e => s.add (.error e) none
  | .derive slot op =>
    match s.held? slot with
    | some id => (s.derive id op).value.1
    | none => s
  | .copy slot =>
    match s.held? slot with
    | some id => s.hold id
    | none => s
  | .release slot => s.release slot

def actAll (actions : List Action) : Store := actions.foldl act empty

theorem actAll_concat (actions : List Action) (a : Action) :
    actAll (actions ++ [a]) = (actAll actions).act a := by
  rw [actAll, List.foldl_append]
  rfl

/-! ### The past of a run -/

/-- One of the actions applies an operation to `parent`, which is then held, and makes `child`. -/
def DerivedFrom (actions : List Action) (child parent : NodeId) : Prop :=
  ∃ front slot op back r q, actions = front ++ .derive slot op :: back ∧
    (actAll front).held? slot = some parent ∧ (actAll front).content? parent = some (.ok r) ∧
    r.apply op = .ok q ∧ child = (actAll front).nodes.length

/-- One of the actions makes `id` from a stored table. -/
def LoadedAs (actions : List Action) (id : NodeId) : Prop :=
  ∃ front d source back r, actions = front ++ .load d source :: back ∧
    Relation.ofTable d source = .ok r ∧ id = (actAll front).nodes.length

/-- All nodes that `id` was derived from, nearest first, down to a stored table. -/
inductive Ancestry (actions : List Action) : NodeId → List NodeId → Prop
  | base {id : NodeId} : LoadedAs actions id → Ancestry actions id []
  | step {id parent : NodeId} {older : List NodeId} : DerivedFrom actions id parent →
      Ancestry actions parent older → Ancestry actions id (parent :: older)

theorem DerivedFrom.concat {actions : List Action} {child parent : NodeId}
    (h : DerivedFrom actions child parent) (a : Action) :
    DerivedFrom (actions ++ [a]) child parent := by
  obtain ⟨front, slot, op, back, r, q, rfl, held, content, applied, rfl⟩ := h
  exact ⟨front, slot, op, back ++ [a], r, q, by simp, held, content, applied, rfl⟩

theorem LoadedAs.concat {actions : List Action} {id : NodeId} (h : LoadedAs actions id) (a : Action) :
    LoadedAs (actions ++ [a]) id := by
  obtain ⟨front, d, source, back, r, rfl, loaded, rfl⟩ := h
  exact ⟨front, d, source, back ++ [a], r, by simp, loaded, rfl⟩

/-! ### What an action does -/

/-- The content and the parent of the node that an action makes. -/
inductive Makes (s : Store) : Action → Derived → Option NodeId → Prop
  | load {d : Dialect} {source : TableSource} {r : Relation} :
      Relation.ofTable d source = .ok r → Makes s (.load d source) (.ok r) none
  | reject (e : Rejection) : Makes s (.reject e) (.error e) none
  | derive {slot : Nat} {op : Operation} {id : NodeId} {r q : Relation} : s.held? slot = some id →
      s.content? id = some (.ok r) → r.apply op = .ok q → Makes s (.derive slot op) (.ok q) (some id)
  | refuse {slot : Nat} {op : Operation} {id : NodeId} {r : Relation} {e : Rejection} :
      s.held? slot = some id → s.content? id = some (.ok r) → r.apply op = .error e →
      Makes s (.derive slot op) (.error e) none

/-- An action makes a node, or it leaves the nodes alone and opens a slot at most on one of them that
is held already. -/
theorem act_cases (s : Store) (a : Action) :
    (∃ x parent, s.act a = s.add x parent ∧ Makes s a x parent) ∨
    (s.act a).nodes = s.nodes ∧ ∀ id, some id ∈ (s.act a).slots → some id ∈ s.slots := by
  have heldIn {slot : Nat} {id : NodeId} (h : s.held? slot = some id) : some id ∈ s.slots :=
    List.mem_of_getElem? (Option.join_eq_some_iff.1 h)
  have opened (id : NodeId) (h : some id ∈ s.slots) :
      (s.hold id).nodes = s.nodes ∧ ∀ other, some other ∈ (s.hold id).slots → some other ∈ s.slots := by
    refine ⟨rfl, fun other hm => ?_⟩
    rcases List.mem_append.1 hm with hm | hm
    · exact hm
    · rw [List.mem_singleton.1 hm]
      exact h
  cases a with
  | load d source =>
    have loaded : (Relation.load d source).value = Relation.ofTable d source := rfl
    cases hb : Relation.ofTable d source with
    | ok r => exact Or.inl ⟨.ok r, none, by rw [act, loaded, hb], .load hb⟩
    | error f =>
      have skipped : s.act (.load d source) = s.skip := by rw [act, loaded, hb]
      rw [skipped]
      exact Or.inr ⟨rfl, fun id hm => by simpa [skip] using hm⟩
  | reject e => exact Or.inl ⟨_, _, rfl, .reject e⟩
  | derive slot op =>
    cases hs : s.held? slot with
    | none => exact Or.inr (by simp [act, hs])
    | some id =>
      have acted : s.act (.derive slot op) = (s.derive id op).value.1 := by rw [act, hs]
      cases hx : s.content? id with
      | none =>
        rw [acted, derive, hx]
        exact Or.inr (opened id (heldIn hs))
      | some x =>
        cases x with
        | error e =>
          rw [acted, derive_of_error hx]
          exact Or.inr (opened id (heldIn hs))
        | ok r =>
          rw [acted, derive_of_ok hx]
          cases ha : r.apply op with
          | ok q =>
            have accepted := ((Relation.apply_eq_ok_iff r op q).1 ha).1
            exact Or.inl ⟨_, _, by rw [if_pos accepted], .derive hs hx ha⟩
          | error e =>
            have refused : ¬op.acceptable r.dialect = true := by
              intro accepted
              cases ((Relation.apply_eq_ok_iff r op _).2 ⟨accepted, rfl⟩).symm.trans ha
            exact Or.inl ⟨_, _, by rw [if_neg refused], .refuse hs hx ha⟩
  | copy slot =>
    cases hs : s.held? slot with
    | none => exact Or.inr (by simp [act, hs])
    | some id =>
      rw [act, hs]
      exact Or.inr (opened id (heldIn hs))
  | release slot =>
    refine Or.inr ⟨rfl, fun id hm => ?_⟩
    rcases List.mem_or_eq_of_mem_set hm with hm | hm
    · exact hm
    · cases hm

theorem extends_act (s : Store) (a : Action) : s.Extends (s.act a) := by
  rcases act_cases s a with ⟨x, parent, made, -⟩ | ⟨same, -⟩
  · rw [made]
    exact extends_add s x parent
  · intro id node h
    rw [node?, same]
    exact h

theorem extends_actAll (front back : List Action) :
    (actAll front).Extends (actAll (front ++ back)) := by
  induction back using List.reverseRecOn with
  | nil =>
    rw [List.append_nil]
    exact Extends.refl _
  | append_singleton init a ih =>
    rw [← List.append_assoc, actAll_concat]
    exact ih.trans (extends_act _ a)

/-! ### What the nodes of a run tell about its past -/

/-- A node with a parent was derived from it, and a relation without one comes from a table. -/
theorem past_of_node {actions : List Action} {id : NodeId} {node : Node}
    (h : (actAll actions).node? id = some node) :
    (∀ parent, node.parent = some parent → DerivedFrom actions id parent) ∧
    (∀ r, node.parent = none → node.content = .ok r → LoadedAs actions id) := by
  induction actions using List.reverseRecOn with
  | nil => cases h
  | append_singleton init a ih =>
    rw [actAll_concat] at h
    have before (h : (actAll init).node? id = some node) := ih h
    rcases act_cases (actAll init) a with ⟨x, parent, made, makes⟩ | ⟨same, -⟩
    · rw [made, node?_add] at h
      split at h
      · rename_i fresh
        cases h
        -- the node is the one that the last action makes
        cases makes with
        | load loaded => exact ⟨nofun, fun r _ _ => ⟨init, _, _, [], _, rfl, loaded, fresh⟩⟩
        | reject e => exact ⟨nofun, nofun⟩
        | derive held content applied =>
          refine ⟨fun parent hp => ?_, nofun⟩
          cases hp
          exact ⟨init, _, _, [], _, _, rfl, held, content, applied, fresh⟩
        | refuse held content applied => exact ⟨nofun, nofun⟩
      · exact ⟨fun p hp => ((before h).1 p hp).concat a, fun r hp hr => ((before h).2 r hp hr).concat a⟩
    · rw [node?, same] at h
      exact ⟨fun p hp => ((before h).1 p hp).concat a, fun r hp hr => ((before h).2 r hp hr).concat a⟩

theorem DerivedFrom.exists_node {actions : List Action} {child parent : NodeId}
    (h : DerivedFrom actions child parent) :
    parent < child ∧ ∃ r q op, (actAll actions).content? parent = some (.ok r) ∧
      r.apply op = .ok q ∧ (actAll actions).node? child = some ⟨.ok q, some parent⟩ := by
  obtain ⟨front, slot, op, back, r, q, rfl, held, content, applied, rfl⟩ := h
  have made : actAll (front ++ [.derive slot op]) = (actAll front).add (.ok q) (some parent) := by
    have accepted := ((Relation.apply_eq_ok_iff r op q).1 applied).1
    rw [actAll_concat, act, held]
    show ((actAll front).derive parent op).value.1 = _
    rw [derive_of_ok content, applied, if_pos accepted]
  have later := extends_actAll (front ++ [.derive slot op]) back
  rw [List.append_assoc, List.singleton_append] at later
  have first := extends_add (actAll front) (.ok q) (some parent)
  rw [← made] at first
  obtain ⟨node, hn, -⟩ := Option.map_eq_some_iff.1 content
  refine ⟨lt_length_of_node? hn, r, q, op, (first.trans later).content? content, applied,
    later _ _ ?_⟩
  rw [made, node?_add, if_pos rfl]

theorem LoadedAs.exists_node {actions : List Action} {id : NodeId} (h : LoadedAs actions id) :
    ∃ r, r.depth = 0 ∧ (actAll actions).node? id = some ⟨.ok r, none⟩ := by
  obtain ⟨front, d, source, back, r, rfl, loaded, rfl⟩ := h
  have made : actAll (front ++ [.load d source]) = (actAll front).add (.ok r) none := by
    rw [actAll_concat, act]
    show (match Relation.ofTable d source with
      | .ok r => (actAll front).add (.ok r) none
      | .error _ => (actAll front).skip) = _
    rw [loaded]
  have later := extends_actAll (front ++ [.load d source]) back
  rw [List.append_assoc, List.singleton_append] at later
  have depth : r.depth = 0 := by
    obtain ⟨-, rfl⟩ := (Relation.ofTable_eq_ok_iff d source r).1 loaded
    rfl
  refine ⟨r, depth, later _ _ ?_⟩
  rw [made, node?_add, if_pos rfl]

theorem exists_ancestry {actions : List Action} {id : NodeId} {r : Relation}
    (h : (actAll actions).content? id = some (.ok r)) : ∃ older, Ancestry actions id older := by
  induction id using Nat.strongRecOn generalizing r with
  | ind id ih =>
    obtain ⟨node, hn, hr⟩ := Option.map_eq_some_iff.1 h
    obtain ⟨derived, loaded⟩ := past_of_node hn
    cases hp : node.parent with
    | none => exact ⟨[], .base (loaded r hp hr)⟩
    | some parent =>
      obtain ⟨lt, q, -, -, content, -⟩ := (derived parent hp).exists_node
      obtain ⟨older, past⟩ := ih parent lt content
      exact ⟨parent :: older, .step (derived parent hp) past⟩

theorem parent_of_error {actions : List Action} {id : NodeId} {node : Node} {e : Rejection}
    (h : (actAll actions).node? id = some node) (he : node.content = .error e) :
    node.parent = none := by
  cases hp : node.parent with
  | none => rfl
  | some parent =>
    obtain ⟨-, -, q, -, -, -, made⟩ := ((past_of_node h).1 parent hp).exists_node
    cases made.symm.trans h
    cases he

theorem exists_node_of_held {actions : List Action} {id : NodeId}
    (h : some id ∈ (actAll actions).slots) : ∃ node, (actAll actions).node? id = some node := by
  induction actions using List.reverseRecOn with
  | nil => cases h
  | append_singleton init a ih =>
    have kept (hm : some id ∈ (actAll init).slots) :
        ∃ node, ((actAll init).act a).node? id = some node := by
      obtain ⟨node, hn⟩ := ih hm
      exact ⟨node, extends_act _ a id node hn⟩
    rw [actAll_concat] at h ⊢
    rcases act_cases (actAll init) a with ⟨x, parent, made, -⟩ | ⟨-, held⟩
    · have slots : ((actAll init).act a).slots =
          (actAll init).slots ++ [some (actAll init).nodes.length] := by
        rw [made]
        rfl
      rw [slots] at h
      rcases List.mem_append.1 h with hm | hm
      · exact kept hm
      · cases List.mem_singleton.1 hm
        exact ⟨⟨x, parent⟩, by rw [made, node?_add, if_pos rfl]⟩
    · exact kept (held id h)

/-! ### Lineage -/

/-- The nodes that going from parent to parent meets until there is none. -/
inductive Walk (s : Store) : NodeId → List NodeId → Prop
  | last {id : NodeId} : s.parent? id = none → Walk s id [id]
  | next {id parent : NodeId} {rest : List NodeId} : s.parent? id = some parent →
      Walk s parent rest → Walk s id (id :: rest)

section Ancestry

variable {actions : List Action} {id : NodeId} {older : List NodeId}

theorem LoadedAs.parent?_eq (h : LoadedAs actions id) : (actAll actions).parent? id = none := by
  obtain ⟨r, -, hn⟩ := h.exists_node
  rw [parent?, hn]
  rfl

theorem DerivedFrom.parent?_eq {parent : NodeId} (h : DerivedFrom actions id parent) :
    (actAll actions).parent? id = if (actAll actions).isAlive parent then some parent else none := by
  obtain ⟨-, r, q, op, -, -, hn⟩ := h.exists_node
  rw [parent?, hn]
  exact Option.filter_some

theorem ancestors_of_root {s : Store} (h : s.parent? id = none) : s.ancestors id = [] := by
  rw [ancestors, h]

theorem ancestors_of_parent {s : Store} {parent : NodeId} (h : s.parent? id = some parent)
    (lt : parent < id) : s.ancestors id = parent :: s.ancestors parent := by
  rw [ancestors, h]
  exact if_pos lt

theorem Ancestry.ancestors_eq (h : Ancestry actions id older) :
    (actAll actions).ancestors id = older.takeWhile (actAll actions).isAlive := by
  induction h with
  | base loaded => exact ancestors_of_root loaded.parent?_eq
  | step derived past ih =>
    have above := derived.parent?_eq
    rw [List.takeWhile_cons]
    split at above
    · rename_i alive
      rw [ancestors_of_parent above derived.exists_node.1, ih, if_pos alive]
    · rename_i dead
      rw [ancestors_of_root above, if_neg dead]

theorem Ancestry.walk (h : Ancestry actions id older) :
    (actAll actions).Walk id ((actAll actions).lineage id) := by
  induction h with
  | base loaded =>
    rw [lineage, ancestors_of_root loaded.parent?_eq]
    exact .last loaded.parent?_eq
  | step derived past ih =>
    have above := derived.parent?_eq
    split at above
    · rw [lineage, ancestors_of_parent above derived.exists_node.1]
      exact .next above ih
    · rw [lineage, ancestors_of_root above]
      exact .last above

theorem Ancestry.entry (h : Ancestry actions id older) : ∃ r,
    (actAll actions).content? id = some (.ok r) ∧ r.depth = older.length ∧
    ∀ i a, (id :: older)[i]? = some a → ∃ q, (actAll actions).content? a = some (.ok q) ∧
      q.depth + i = r.depth ∧ q.dialect = r.dialect ∧ q.table = r.table ∧ q.name = r.name := by
  induction h with
  | @base id loaded =>
    obtain ⟨r, depth, hn⟩ := loaded.exists_node
    have content : (actAll actions).content? id = some (.ok r) := by
      rw [content?, hn]
      rfl
    refine ⟨r, content, depth, fun i a hi => ?_⟩
    cases i with
    | zero =>
      cases hi
      exact ⟨r, content, rfl, rfl, rfl, rfl⟩
    | succ i => cases hi
  | @step id parent older derived past ih =>
    obtain ⟨-, r, q, op, hr, applied, hn⟩ := derived.exists_node
    obtain ⟨r', content, depth, entries⟩ := ih
    cases hr.symm.trans content
    obtain ⟨-, rfl⟩ := (Relation.apply_eq_ok_iff r op q).1 applied
    refine ⟨_, by rw [content?, hn]; rfl, by rw [List.length_cons, ← depth], fun i a hi => ?_⟩
    cases i with
    | zero =>
      cases hi
      exact ⟨_, by rw [content?, hn]; rfl, rfl, rfl, rfl, rfl⟩
    | succ i =>
      obtain ⟨q, hq, hd, same⟩ := entries i a hi
      exact ⟨q, hq, by rw [← Nat.add_assoc, hd], same⟩

theorem Ancestry.isAlive_of_parentsHeld (h : Ancestry actions id older)
    (hp : (actAll actions).ParentsHeld) : ∀ a ∈ older, (actAll actions).isAlive a = true := by
  induction h with
  | base loaded => nofun
  | step derived past ih =>
    obtain ⟨-, r, q, op, -, -, hn⟩ := derived.exists_node
    rw [List.forall_mem_cons]
    exact ⟨(isAlive_iff _ _).2 (hp _ _ _ hn rfl), ih⟩

/-- What the lineage of a relation is, where `older` holds all nodes that it was derived from. -/
structure Descent (actions : List Action) (id : NodeId) (r : Relation) (older : List NodeId) :
    Prop where
  past : Ancestry actions id older
  ends : (actAll actions).Walk id ((actAll actions).lineage id)
  stops : (actAll actions).lineage id = id :: older.takeWhile (actAll actions).isAlive
  entries : ∀ i a, ((actAll actions).lineage id)[i]? = some a →
    ∃ q, (actAll actions).content? a = some (.ok q) ∧ q.depth + i = r.depth ∧
      q.dialect = r.dialect ∧ q.table = r.table ∧ q.name = r.name
  bound : ((actAll actions).lineage id).length ≤ r.depth + 1
  whole : ((actAll actions).lineage id).length = r.depth + 1 ↔
    ∀ a ∈ older, (actAll actions).isAlive a = true

theorem Ancestry.descent {r : Relation} (h : Ancestry actions id older)
    (hr : (actAll actions).content? id = some (.ok r)) : Descent actions id r older := by
  obtain ⟨r', content, depth, entries⟩ := h.entry
  cases content.symm.trans hr
  have stops : (actAll actions).lineage id = id :: older.takeWhile (actAll actions).isAlive := by
    rw [lineage, h.ancestors_eq]
  have front := List.takeWhile_prefix (actAll actions).isAlive (l := older)
  refine ⟨h, h.walk, stops, ?_, ?_, ?_⟩
  · intro i a hi
    rw [stops] at hi
    refine entries i a ?_
    obtain ⟨rest, split⟩ := front
    rw [← split, ← List.cons_append, List.getElem?_append_left (List.getElem?_eq_some_iff.1 hi).1]
    exact hi
  · have shorter := front.length_le
    rw [stops, List.length_cons, depth]
    omega
  · rw [stops, List.length_cons, depth, Nat.add_right_cancel_iff, ← List.takeWhile_eq_self_iff]
    exact ⟨front.eq_of_length, congrArg List.length⟩

end Ancestry

/-! ### The stores of plans -/

theorem isAlive_iff_held (s : Store) (id : NodeId) :
    s.isAlive id = true ↔ ∃ slot, s.held? slot = some id := by
  rw [isAlive_iff]
  constructor
  · intro hm
    obtain ⟨slot, hs⟩ := List.mem_iff_getElem?.1 hm
    exact ⟨slot, by rw [held?, hs]; rfl⟩
  · rintro ⟨slot, hs⟩
    exact List.mem_of_getElem? (Option.join_eq_some_iff.1 hs)

theorem exists_actions {d : Dialect} {source : TableSource} {r : Relation}
    (h : Relation.ofTable d source = .ok r) (ops : List Operation) :
    ∃ actions, actAll actions = ((Plan.start r).deriveAll 0 ops).1 := by
  induction ops using List.reverseRecOn with
  | nil =>
    refine ⟨[.load d source], ?_⟩
    show (match Relation.ofTable d source with
      | .ok r => empty.add (.ok r) none
      | .error _ => empty.skip) = _
    rw [h]
    rfl
  | append_singleton init op ih =>
    obtain ⟨actions, same⟩ := ih
    have held := held?_deriveAll (Plan.content?_start r) (Plan.slots_start r) (Nat.le_refl init.length)
    rw [List.take_length] at held
    refine ⟨actions ++ [.derive init.length op], ?_⟩
    rw [actAll_concat, same, act, held, deriveAll_concat]

theorem parent?_keepLast {actions : List Action} {slot : Nat} {id : NodeId}
    (h : (actAll actions).keepLast.held? slot = some id) :
    (actAll actions).keepLast.parent? id = none := by
  have onlyLast {i : Nat} {other : NodeId} (hi : (actAll actions).keepLast.held? i = some other) :
      i + 1 = (actAll actions).slots.length ∧ (actAll actions).held? i = some other := by
    rw [held?_keepLast] at hi
    split at hi
    · exact ⟨‹_›, hi⟩
    · cases hi
  unfold parent?
  rw [node?_keepLast]
  cases hn : (actAll actions).node? id with
  | none => rfl
  | some node =>
    cases hp : node.parent with
    | none => simp [hp]
    | some parent =>
      have lt := ((past_of_node hn).1 parent hp).exists_node.1
      have dead : ¬(actAll actions).keepLast.isAlive parent = true := by
        intro alive
        obtain ⟨other, ho⟩ := (isAlive_iff_held _ _).1 alive
        obtain ⟨hs, held⟩ := onlyLast h
        obtain ⟨hother, heldOther⟩ := onlyLast ho
        have same : other = slot := by omega
        rw [same, held] at heldOther
        cases heldOther
        exact Nat.lt_irrefl _ lt
      simp [hp, dead]

section Plan

variable {p : Plan} {config : Config} {t : Store}

theorem length_lineage_of_plan (h : (p.compileSteps config).value = .ok t) {i : Nat} {q : Relation}
    (hq : t.inSlot? i = some (.ok q)) :
    ∃ id, t.held? i = some id ∧ (t.lineage id).length = i + 1 := by
  obtain ⟨r, hb, -, rfl⟩ := Plan.run_of_ok h
  obtain ⟨source, -, loaded⟩ := Plan.value_baseRelation_eq_ok_iff.1 hb
  obtain ⟨id, held, content⟩ := Option.bind_eq_some_iff.1 hq
  have hi : i ≤ p.steps.length := by
    by_contra outside
    rw [Plan.inSlot?_run_eq_none (by omega)] at hq
    cases hq
  have depth : q.depth = i := by
    rw [Plan.inSlot?_run hi, Option.some.injEq] at hq
    have reached : Relation.Reached config.dialect source _ q := ⟨r, loaded, hq⟩
    rw [reached.depth_eq_length, List.length_take, List.length_map]
    omega
  have parents := parentsHeld_deriveAll (Plan.content?_start r) (Plan.parentsHeld_start r)
    (by rw [Plan.slots_start]; exact List.mem_singleton_self _)
    (p.steps.map (Step.operation config.dialect))
  obtain ⟨actions, same⟩ := exists_actions loaded (p.steps.map (Step.operation config.dialect))
  rw [← same] at held content parents ⊢
  obtain ⟨older, past⟩ := exists_ancestry content
  refine ⟨id, held, ?_⟩
  rw [(past.descent content).whole.2 (past.isAlive_of_parentsHeld parents), depth]

theorem lineage_of_compiled (h : (p.compileSteps config).value = .ok t) : ∃ u id,
    (p.compile config).value = .ok u ∧ u.held? p.steps.length = some id ∧
    (∀ slot, slot ≠ p.steps.length → u.held? slot = none) ∧ (u.lineage id).length = 1 := by
  obtain ⟨r, hb, -, rfl⟩ := Plan.run_of_ok h
  obtain ⟨source, -, loaded⟩ := Plan.value_baseRelation_eq_ok_iff.1 hb
  obtain ⟨u, hu, -, entry, others⟩ := Plan.compile_of_ok h (Plan.inSlot?_run (Nat.le_refl _))
  obtain ⟨id, held, -⟩ := Option.bind_eq_some_iff.1 entry
  refine ⟨u, id, hu, held, others, ?_⟩
  obtain ⟨actions, same⟩ := exists_actions loaded (p.steps.map (Step.operation config.dialect))
  rw [Plan.value_compile_of_ok h, ← same] at hu
  cases hu
  rw [lineage, ancestors_of_root (parent?_keepLast held)]
  rfl

end Plan

/-- Whatever was done with handles, a held relation has all of its past as lineage up to the first
node that nothing holds any more, and a rejection has itself alone. So the relations of a plan have a
lineage down to the base, and the one that is left after compiling a plan has itself alone. -/
theorem lineage_ends_at_first_released (actions : List Action) :
    (∀ slot id, (actAll actions).held? slot = some id →
      (∃ r older, (actAll actions).content? id = some (.ok r) ∧ Descent actions id r older) ∨
      (∃ e, (actAll actions).content? id = some (.error e) ∧ (actAll actions).parent? id = none ∧
        (actAll actions).lineage id = [id])) ∧
    ∀ (p : Plan) (config : Config) (t : Store), (p.compileSteps config).value = .ok t →
      (∀ i r, t.inSlot? i = some (.ok r) →
        ∃ id, t.held? i = some id ∧ (t.lineage id).length = i + 1) ∧
      ∃ u id, (p.compile config).value = .ok u ∧ u.held? p.steps.length = some id ∧
        (∀ slot, slot ≠ p.steps.length → u.held? slot = none) ∧ (u.lineage id).length = 1 := by
  refine ⟨?_, fun p config t ht => ⟨fun i r hr => length_lineage_of_plan ht hr, lineage_of_compiled ht⟩⟩
  intro slot id held
  obtain ⟨node, hn⟩ := exists_node_of_held (List.mem_of_getElem? (Option.join_eq_some_iff.1 held))
  have content : (actAll actions).content? id = some node.content := by
    rw [content?, hn]
    rfl
  cases hx : node.content with
  | ok r =>
    rw [hx] at content
    obtain ⟨older, past⟩ := exists_ancestry content
    exact Or.inl ⟨r, older, content, past.descent content⟩
  | error e =>
    rw [hx] at content
    have root : (actAll actions).parent? id = none := by
      rw [parent?, hn, Option.bind_some, parent_of_error hn hx]
      rfl
    refine Or.inr ⟨e, content, root, ?_⟩
    rw [lineage, ancestors_of_root root]

/-- The relation in slot 4 is derived in three steps, and in the end nothing holds the node of the
first of them. -/
def gapActions : List Action :=
  [.load .postgreSql ⟨"", "d", "t", "ds", ["id", "Name"]⟩, .derive 0 (.dropColumn "Name"),
    .derive 1 (.dropColumn "x"), .copy 2, .derive 3 (.dropColumn "y"), .release 1]

/-- The lineage ends in front of the gap, although the base is held. -/
theorem lineage_ends_at_first_released_gap :
    ∃ r older, (actAll gapActions).held? 0 = some 0 ∧ (actAll gapActions).held? 4 = some 3 ∧
      Descent gapActions 3 r older ∧ r.depth = 3 ∧ (actAll gapActions).lineage 3 = [3, 2] := by
  obtain ⟨held, -⟩ := lineage_ends_at_first_released gapActions
  have depth : ((actAll gapActions).content? 3).map (fun x => x.toOption.map Relation.depth) =
      some (some 3) := by
    decide +kernel
  rcases held 4 3 (by decide +kernel) with ⟨r, older, content, descent⟩ | ⟨e, content, -⟩
  · rw [content] at depth
    exact ⟨r, older, by decide +kernel, by decide +kernel, descent,
      Option.some.inj (Option.some.inj depth), by decide +kernel⟩
  · rw [content] at depth
    cases depth

end Store

end LayeredSql
