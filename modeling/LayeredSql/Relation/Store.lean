import LayeredSql.Relation

/-! # Handles on relations

Relations that are held by numbered slots. Deriving a relation makes a new node that remembers which
node it came from, without keeping that node alive: a node is alive while some slot holds it. The
lineage of a node therefore ends at the first ancestor that no slot holds any more. An operation on
a rejection makes no node: the new slot holds the node of the rejection itself. -/

namespace LayeredSql

/-- A node is known by its place in the store. -/
abbrev NodeId := Nat

structure Node where
  content : Derived
  parent : Option NodeId

structure Store where
  /-- Every node made so far; its place is its identity. -/
  nodes : List Node
  /-- What each slot holds. A released slot keeps its number. -/
  slots : List (Option NodeId)

namespace Store

def empty : Store := ⟨[], []⟩

/-- The node in a slot. -/
def held? (s : Store) (slot : Nat) : Option NodeId := (s.slots[slot]?).join

def node? (s : Store) (id : NodeId) : Option Node := s.nodes[id]?

def content? (s : Store) (id : NodeId) : Option Derived := (s.node? id).map Node.content

def isAlive (s : Store) (id : NodeId) : Bool := s.slots.contains (some id)

/-- The lowest slot that holds the node. -/
def slotOf? (s : Store) (id : NodeId) : Option Nat :=
  s.slots.findIdx? fun slot => slot == some id

/-- The node that a node was derived from, while it is alive. -/
def parent? (s : Store) (id : NodeId) : Option NodeId :=
  ((s.node? id).bind Node.parent).filter s.isAlive

/-- The living ancestors of a node, nearest first. Nodes come after the nodes they were derived
from, so the search goes down. -/
def ancestors (s : Store) (id : NodeId) : List NodeId :=
  match s.parent? id with
  | some p => if p < id then p :: s.ancestors p else []
  | none => []
termination_by id

/-- A node and its living ancestors, nearest first. -/
def lineage (s : Store) (id : NodeId) : List NodeId := id :: s.ancestors id

/-- Opens a slot on a node that is already there. -/
def hold (s : Store) (id : NodeId) : Store := { s with slots := s.slots ++ [some id] }

/-- Opens a slot that holds nothing. -/
def skip (s : Store) : Store := { s with slots := s.slots ++ [none] }

/-- Makes a node and opens a slot on it. -/
def add (s : Store) (content : Derived) (parent : Option NodeId) : Store :=
  { nodes := s.nodes ++ [⟨content, parent⟩], slots := s.slots ++ [some s.nodes.length] }

/-- Empties a slot. -/
def release (s : Store) (slot : Nat) : Store := { s with slots := s.slots.set slot none }

/-- Keeps the last slot only. -/
def keepLast (s : Store) : Store :=
  { s with slots := (List.range s.slots.length).map fun i =>
      if i + 1 = s.slots.length then s.held? i else none }

/-- Applies an operation to a node, opens a slot on the result, and says which node that is. -/
def derive (s : Store) (id : NodeId) (op : Operation) : Logged (Store × NodeId) :=
  match s.content? id with
  | some (.ok r) => do
    match ← r.perform op with
    | .ok next => return (s.add (.ok next) (some id), s.nodes.length)
    | .error e => return (s.add (.error e) none, s.nodes.length)
  | _ => pure (s.hold id, id)

/-- What the slots hold, in order; slots that hold nothing are left out. -/
def contents (s : Store) : List Derived :=
  s.slots.filterMap fun slot => slot.bind s.content?

/-! ### Nodes and slots after each operation -/

@[simp] theorem node?_hold (s : Store) (id other : NodeId) :
    (s.hold id).node? other = s.node? other := rfl

@[simp] theorem node?_release (s : Store) (slot : Nat) (id : NodeId) :
    (s.release slot).node? id = s.node? id := rfl

@[simp] theorem node?_keepLast (s : Store) (id : NodeId) : s.keepLast.node? id = s.node? id := rfl

theorem node?_add (s : Store) (content : Derived) (parent : Option NodeId) (id : NodeId) :
    (s.add content parent).node? id =
      if id = s.nodes.length then some ⟨content, parent⟩ else s.node? id := by
  simp only [node?, add]
  rcases Nat.lt_trichotomy id s.nodes.length with h | h | h
  · rw [if_neg (Nat.ne_of_lt h), List.getElem?_append_left h]
  · rw [if_pos h, h, List.getElem?_append_right (Nat.le_refl _), Nat.sub_self]
    rfl
  · rw [if_neg (Nat.ne_of_gt h), List.getElem?_eq_none (Nat.le_of_lt h),
      List.getElem?_eq_none (by rw [List.length_append]; exact h)]

theorem isAlive_iff (s : Store) (id : NodeId) : s.isAlive id = true ↔ some id ∈ s.slots := by
  simp [isAlive]

end Store

end LayeredSql
