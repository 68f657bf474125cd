import LayeredSql.Proofs.Runs
import LayeredSql.Relation.Store
import Mathlib.Data.List.Basic

/-!
# Runs of operations on handles

A run takes operations one after the other, each on the node that the one before it gave. Nodes that
are already there stay what they are, so a run is described by its steps: an operation on a relation
makes a node, an operation on a rejection gives back the node of the rejection.
-/

namespace LayeredSql

namespace Store

/-! ### Nodes that stay -/

/-- Every node of the first store is a node of the second. -/
def Extends (s t : Store) : Prop := ∀ id node, s.node? id = some node → t.node? id = some node

theorem Extends.refl (s : Store) : s.Extends s := fun _ _ h => h

theorem Extends.trans {s t u : Store} (hst : s.Extends t) (htu : t.Extends u) : s.Extends u :=
  fun id node h => htu id node (hst id node h)

theorem Extends.content? {s t : Store} (h : s.Extends t) {id : NodeId} {x : Derived}
    (hx : s.content? id = some x) : t.content? id = some x := by
  obtain ⟨node, hn, rfl⟩ := Option.map_eq_some_iff.1 hx
  rw [Store.content?, h id node hn]
  rfl

theorem lt_length_of_node? {s : Store} {id : NodeId} {node : Node} (h : s.node? id = some node) :
    id < s.nodes.length :=
  (List.getElem?_eq_some_iff.1 h).1

theorem extends_add (s : Store) (content : Derived) (parent : Option NodeId) :
    s.Extends (s.add content parent) := by
  intro id node h
  have bound := lt_length_of_node? h
  rw [node?_add, if_neg (Nat.ne_of_lt bound)]
  exact h

theorem content?_add_self (s : Store) (content : Derived) (parent : Option NodeId) :
    (s.add content parent).content? s.nodes.length = some content := by
  rw [Store.content?, node?_add, if_pos rfl]
  rfl

/-! ### One operation -/

section Step

variable {s : Store} {id : NodeId}

/-- An operation on a relation makes a node, which knows where it came from unless it is a
rejection. -/
theorem derive_of_ok {r : Relation} (h : s.content? id = some (.ok r)) (op : Operation) :
    (s.derive id op).value =
      (s.add (r.apply op) (if op.acceptable r.dialect then some id else none), s.nodes.length) := by
  unfold derive
  rw [h]
  by_cases ha : op.acceptable r.dialect = true
  · simp [Relation.perform, Relation.apply, ha]
  · simp [Relation.perform, Relation.apply, ha]

theorem derive_of_error {e : Rejection} (h : s.content? id = some (.error e)) (op : Operation) :
    (s.derive id op).value = (s.hold id, id) := by
  unfold derive
  rw [h]
  rfl

theorem extends_derive {x : Derived} (h : s.content? id = some x) (op : Operation) :
    s.Extends (s.derive id op).value.1 := by
  cases x with
  | ok r =>
    rw [derive_of_ok h]
    exact extends_add s _ _
  | error e =>
    rw [derive_of_error h]
    exact Extends.refl s

theorem content?_derive {x : Derived} (h : s.content? id = some x) (op : Operation) :
    (s.derive id op).value.1.content? (s.derive id op).value.2 = some (x.apply op) := by
  cases x with
  | ok r =>
    rw [derive_of_ok h]
    exact content?_add_self s _ _
  | error e =>
    rw [derive_of_error h]
    exact h

theorem slots_derive {x : Derived} (h : s.content? id = some x) (op : Operation) :
    (s.derive id op).value.1.slots = s.slots ++ [some (s.derive id op).value.2] := by
  cases x with
  | ok r =>
    rw [derive_of_ok h]
    rfl
  | error e =>
    rw [derive_of_error h]
    rfl

end Step

/-! ### Runs -/

/-- Takes the operations one after the other, each on the node that the one before it gave. -/
def deriveAll (s : Store) (id : NodeId) (ops : List Operation) : Store × NodeId :=
  ops.foldl (fun here op => (here.1.derive here.2 op).value) (s, id)

section Run

variable {s : Store} {id : NodeId}

theorem deriveAll_append (s : Store) (id : NodeId) (front back : List Operation) :
    s.deriveAll id (front ++ back) =
      (s.deriveAll id front).1.deriveAll (s.deriveAll id front).2 back := by
  rw [deriveAll, List.foldl_append]
  rfl

theorem deriveAll_concat (s : Store) (id : NodeId) (ops : List Operation) (op : Operation) :
    s.deriveAll id (ops ++ [op]) =
      ((s.deriveAll id ops).1.derive (s.deriveAll id ops).2 op).value :=
  deriveAll_append s id ops [op]

theorem content?_deriveAll {x : Derived} (h : s.content? id = some x) (ops : List Operation) :
    (s.deriveAll id ops).1.content? (s.deriveAll id ops).2 = some (x.applyAll ops) := by
  induction ops generalizing s id x with
  | nil => exact h
  | cons op rest ih => exact ih (content?_derive h op)

theorem extends_deriveAll {x : Derived} (h : s.content? id = some x) (ops : List Operation) :
    s.Extends (s.deriveAll id ops).1 := by
  induction ops generalizing s id x with
  | nil => exact Extends.refl s
  | cons op rest ih => exact (extends_derive h op).trans (ih (content?_derive h op))

theorem deriveAll_of_error {e : Rejection} (h : s.content? id = some (.error e))
    (ops : List Operation) : (s.deriveAll id ops).2 = id := by
  induction ops generalizing s with
  | nil => rfl
  | cons op rest ih =>
    have step : s.deriveAll id (op :: rest) = (s.hold id).deriveAll id rest := by
      show (s.derive id op).value.1.deriveAll (s.derive id op).value.2 rest = _
      rw [derive_of_error h]
    rw [step]
    exact ih h

theorem extends_deriveAll_take {x : Derived} (h : s.content? id = some x) (ops : List Operation)
    (m : Nat) : (s.deriveAll id (ops.take m)).1.Extends (s.deriveAll id ops).1 := by
  have rest := extends_deriveAll (content?_deriveAll h (ops.take m)) (ops.drop m)
  rw [← deriveAll_append, List.take_append_drop] at rest
  exact rest

/-! ### Slots of a run

From a store with a single slot, a run opens one slot for each operation. -/

/-- What a slot holds. -/
def inSlot? (s : Store) (slot : Nat) : Option Derived := (s.held? slot).bind s.content?

theorem slots_deriveAll {x : Derived} (h : s.content? id = some x) (hs : s.slots = [some id])
    (ops : List Operation) :
    (s.deriveAll id ops).1.slots =
      (List.range (ops.length + 1)).map fun i => some (s.deriveAll id (ops.take i)).2 := by
  induction ops using List.reverseRecOn with
  | nil => exact hs
  | append_singleton init op ih =>
    have front : (List.range (init.length + 1)).map (fun i =>
        some (s.deriveAll id ((init ++ [op]).take i)).2) =
          (List.range (init.length + 1)).map fun i => some (s.deriveAll id (init.take i)).2 := by
      refine List.map_congr_left fun i hi => ?_
      rw [List.mem_range] at hi
      rw [List.take_append_of_le_length (by omega)]
    have whole : (init ++ [op]).take (init.length + 1) = init ++ [op] :=
      List.take_of_length_le (by simp)
    rw [deriveAll_concat, slots_derive (content?_deriveAll h init), ih, ← deriveAll_concat,
      List.length_append, List.length_singleton, List.range_succ (n := init.length + 1),
      List.map_append, front, List.map_singleton, whole]

theorem length_slots_deriveAll {x : Derived} (h : s.content? id = some x)
    (hs : s.slots = [some id]) (ops : List Operation) :
    (s.deriveAll id ops).1.slots.length = ops.length + 1 := by
  rw [slots_deriveAll h hs, List.length_map, List.length_range]

theorem held?_deriveAll {x : Derived} (h : s.content? id = some x) (hs : s.slots = [some id])
    {ops : List Operation} {i : Nat} (hi : i ≤ ops.length) :
    (s.deriveAll id ops).1.held? i = some (s.deriveAll id (ops.take i)).2 := by
  rw [held?, slots_deriveAll h hs, List.getElem?_map, List.getElem?_range (by omega)]
  rfl

theorem inSlot?_deriveAll {x : Derived} (h : s.content? id = some x) (hs : s.slots = [some id])
    {ops : List Operation} {i : Nat} (hi : i ≤ ops.length) :
    (s.deriveAll id ops).1.inSlot? i = some (x.applyAll (ops.take i)) := by
  have content := (extends_deriveAll_take h ops i).content? (content?_deriveAll h (ops.take i))
  rw [inSlot?, held?_deriveAll h hs hi]
  exact content

theorem contents_deriveAll {x : Derived} (h : s.content? id = some x) (hs : s.slots = [some id])
    (ops : List Operation) :
    (s.deriveAll id ops).1.contents =
      (List.range (ops.length + 1)).map fun i => x.applyAll (ops.take i) := by
  rw [contents, slots_deriveAll h hs, List.filterMap_map, ← List.filterMap_eq_map]
  refine List.filterMap_congr fun i _ => ?_
  exact (extends_deriveAll_take h ops i).content? (content?_deriveAll h (ops.take i))

/-! ### Parents -/

/-- The nodes that others were derived from are held by slots. -/
def ParentsHeld (s : Store) : Prop :=
  ∀ id node parent, s.node? id = some node → node.parent = some parent → some parent ∈ s.slots

theorem parentsHeld_derive {x : Derived} (h : s.content? id = some x) (hp : s.ParentsHeld)
    (held : some id ∈ s.slots) (op : Operation) : (s.derive id op).value.1.ParentsHeld := by
  have grown : ∀ slot ∈ s.slots, slot ∈ (s.derive id op).value.1.slots := by
    intro slot hm
    rw [slots_derive h]
    exact List.mem_append_left _ hm
  intro other node parent hn hparent
  cases x with
  | error e =>
    rw [derive_of_error h] at hn
    exact grown _ (hp other node parent hn hparent)
  | ok r =>
    rw [derive_of_ok h, node?_add] at hn
    split at hn
    · cases hn
      dsimp only at hparent
      split at hparent
      · cases hparent
        exact grown _ held
      · cases hparent
    · exact grown _ (hp other node parent hn hparent)

theorem parentsHeld_deriveAll {x : Derived} (h : s.content? id = some x) (hp : s.ParentsHeld)
    (held : some id ∈ s.slots) (ops : List Operation) : (s.deriveAll id ops).1.ParentsHeld := by
  induction ops generalizing s id x with
  | nil => exact hp
  | cons op rest ih =>
    have next : some (s.derive id op).value.2 ∈ (s.derive id op).value.1.slots := by
      rw [slots_derive h]
      simp
    exact ih (content?_derive h op) (parentsHeld_derive h hp held op) next

end Run

end Store

end LayeredSql
