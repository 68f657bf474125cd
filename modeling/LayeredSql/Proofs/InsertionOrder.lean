import LayeredSql.Proofs.Columns
import Mathlib.Data.List.Nodup

/-!
# Select lists as maps in insertion order

An ordered map has an order of distinct keys and a value for each of them, and its type says that the two
belong together. A select list is one list of pairs, and each of its operations looks for the first match.
The two agree after every sequence of edits that starts with the empty list and never gives an entry the
name of another one. One edit keeps the names distinct and gives the answer of the map, so a sequence does.
-/

namespace LayeredSql

/-! ### Maps in insertion order -/

structure OrderedMap (α β : Type) where
  order : List α
  value : α → Option β
  nodup : order.Nodup
  mem_order_iff : ∀ key, key ∈ order ↔ (value key).isSome = true

namespace OrderedMap

variable {α β : Type} [DecidableEq α]

theorem nodup_append_new {order : List α} (h : order.Nodup) (key : α) :
    (if key ∈ order then order else order ++ [key]).Nodup := by
  split
  · exact h
  · rename_i absent
    rw [List.nodup_append]
    refine ⟨h, List.nodup_singleton key, ?_⟩
    intro a ha b hb same
    exact absent (List.mem_singleton.1 hb ▸ same ▸ ha)

theorem eraseDups_append_singleton (keys : List α) (key : α) :
    (keys ++ [key]).eraseDups =
      if key ∈ keys.eraseDups then keys.eraseDups else keys.eraseDups ++ [key] := by
  rw [List.eraseDups_append]
  by_cases present : key ∈ keys <;> simp [List.removeAll, List.eraseDups_cons, present]

theorem nodup_eraseDups (keys : List α) : keys.eraseDups.Nodup := by
  induction keys using List.reverseRecOn with
  | nil => exact List.nodup_nil
  | append_singleton init key ih =>
    rw [eraseDups_append_singleton]
    exact nodup_append_new ih key

def empty : OrderedMap α β where
  order := []
  value := fun _ => none
  nodup := List.nodup_nil
  mem_order_iff := by simp

/-- A new key comes last. -/
def insert (m : OrderedMap α β) (key : α) (b : β) : OrderedMap α β where
  order := if key ∈ m.order then m.order else m.order ++ [key]
  value := fun other => if other = key then some b else m.value other
  nodup := nodup_append_new m.nodup key
  mem_order_iff := by
    intro other
    by_cases same : other = key
    · subst same
      by_cases present : other ∈ m.order <;> simp [present]
    · by_cases present : key ∈ m.order <;> simp [present, same, m.mem_order_iff]

def remove (m : OrderedMap α β) (key : α) : OrderedMap α β where
  order := m.order.filter fun other => other ≠ key
  value := fun other => if other = key then none else m.value other
  nodup := m.nodup.filter _
  mem_order_iff := by
    intro other
    by_cases same : other = key
    · simp [same]
    · simp [same, m.mem_order_iff]

theorem map_renamed {old new : α} {front back : List α} (first : old ∉ front) (last : old ∉ back) :
    ((front ++ old :: back).map fun key => if key = old then new else key) = front ++ new :: back := by
  have others {keys : List α} (hk : old ∉ keys) :
      (keys.map fun key => if key = old then new else key) = keys := by
    refine (List.map_congr_left ?_).trans (List.map_id _)
    intro key among
    have other : key ≠ old := fun same => hk (same ▸ among)
    exact if_neg other
  rw [List.map_append, List.map_cons, others first, others last, if_pos rfl]

section Rename

variable {m : OrderedMap α β} {old new : α} (present : old ∈ m.order)
  (free : new ∉ m.order ∨ new = old)

include free in
theorem nodup_renamed : (m.order.map fun key => if key = old then new else key).Nodup := by
  refine List.Nodup.map_on ?_ m.nodup
  have other {z : α} (hz : z ∈ m.order) (zo : z ≠ old) : z ≠ new := by
    rintro rfl
    exact free.elim (fun absent => absent hz) zo
  intro x hx y hy same
  by_cases xo : x = old <;> by_cases yo : y = old
  · exact xo.trans yo.symm
  · rw [if_pos xo, if_neg yo] at same
    exact absurd same.symm (other hy yo)
  · rw [if_neg xo, if_pos yo] at same
    exact absurd same (other hx xo)
  · rw [if_neg xo, if_neg yo] at same
    exact same

include present in
theorem mem_renamed_iff (key : α) :
    (key ∈ m.order.map fun key => if key = old then new else key) ↔
      (if key = new then m.value old else if key = old then none else m.value key).isSome = true := by
  rw [List.mem_map]
  by_cases kn : key = new
  · rw [if_pos kn, ← m.mem_order_iff]
    exact iff_of_true ⟨old, present, by simp [kn]⟩ present
  · rw [if_neg kn]
    by_cases ko : key = old
    · rw [if_pos ko]
      refine iff_of_false ?_ (by simp)
      rintro ⟨x, -, hx⟩
      split at hx
      · exact kn hx.symm
      · rename_i other
        exact other (hx.trans ko)
    · rw [if_neg ko, ← m.mem_order_iff]
      constructor
      · rintro ⟨x, hm, hx⟩
        split at hx
        · exact absurd hx.symm kn
        · exact hx ▸ hm
      · intro hm
        exact ⟨key, hm, if_neg ko⟩

end Rename

/-- The new key stands where the old one stood. There is no room for a second entry under a key. -/
def rename (m : OrderedMap α β) (old new : α) : OrderedMap α β :=
  if h : old ∈ m.order ∧ (new ∉ m.order ∨ new = old) then
    { order := m.order.map fun key => if key = old then new else key
      value := fun key => if key = new then m.value old else if key = old then none else m.value key
      nodup := nodup_renamed h.2
      mem_order_iff := mem_renamed_iff h.1 }
  else m

/-- Each key in its first place, with its last value. -/
def collect (pairs : List (α × β)) : OrderedMap α β where
  order := (pairs.map Prod.fst).eraseDups
  value := fun key => pairs.reverse.lookup key
  nodup := nodup_eraseDups _
  mem_order_iff := by
    intro key
    rw [List.mem_eraseDups, List.lookup_isSome_iff]
    simp

def toList (m : OrderedMap α β) : List (α × β) :=
  m.order.filterMap fun key => (m.value key).map (Prod.mk key)

end OrderedMap

/-! ### Edits -/

namespace SelectList

inductive Edit where
  | insert (name : String) (e : Expr)
  /-- Inserts without an answer. -/
  | put (name : String) (e : Expr)
  | remove (name : String)
  | rename (old new : String)
  /-- Begins anew with the pairs. -/
  | collect (pairs : List (String × Expr))

inductive Answer where
  | nothing
  | expression (e : Option Expr)
  | found (b : Bool)
deriving DecidableEq

def edit (l : SelectList) : Edit → Answer × SelectList
  | .insert name e => (l.getThenInsert? name e).map .expression id
  | .put name e => (.nothing, l.insert name e)
  | .remove name => (l.getThenErase? name).map .expression id
  | .rename old new => (l.containsThenRename old new).map .found id
  | .collect pairs => (.nothing, ofList pairs)

end SelectList

open SelectList (Edit Answer)

def OrderedMap.edit (m : OrderedMap String Expr) : Edit → Answer × OrderedMap String Expr
  | .insert name e => (.expression (m.value name), m.insert name e)
  | .put name e => (.nothing, m.insert name e)
  | .remove name => (.expression (m.value name), m.remove name)
  | .rename old new => (.found (old ∈ m.order), m.rename old new)
  | .collect pairs => (.nothing, .collect pairs)

namespace SelectList

/-- The answers to the edits one after the other, and what the edits lead to. -/
def runEdits {σ : Type} (step : σ → Edit → Answer × σ) : σ → List Edit → List Answer × σ
  | state, [] => ([], state)
  | state, x :: rest =>
    ((step state x).1 :: (runEdits step (step state x).2 rest).1,
      (runEdits step (step state x).2 rest).2)

/-- A new name is not that of another entry. -/
def Edit.Fits (l : SelectList) : Edit → Prop
  | .rename old new => new ∉ l.names ∨ new = old
  | _ => True

instance (l : SelectList) : (x : Edit) → Decidable (x.Fits l)
  | .rename old new => inferInstanceAs (Decidable (new ∉ l.names ∨ new = old))
  | .insert .. | .put .. | .remove _ | .collect _ => isTrue trivial

/-- Each edit fits the list that the edits before it lead to. -/
def AllFit : SelectList → List Edit → Prop
  | _, [] => True
  | l, x :: rest => x.Fits l ∧ AllFit (l.edit x).2 rest

instance AllFit.decidable : (l : SelectList) → (edits : List Edit) → Decidable (AllFit l edits)
  | _, [] => isTrue trivial
  | l, x :: rest =>
    haveI := AllFit.decidable (l.edit x).2 rest
    inferInstanceAs (Decidable (x.Fits l ∧ AllFit (l.edit x).2 rest))

/-! ### Where the first match stands -/

section NotMem

variable {name : String} {entries : List (String × Expr)} (h : name ∉ entries.map Prod.fst)

include h

theorem ne_of_not_mem {entry : String × Expr} (among : entry ∈ entries) : entry.1 ≠ name := by
  intro same
  exact h (same ▸ List.mem_map_of_mem among)

theorem lookup_of_not_mem : entries.lookup name = none := by
  rw [List.lookup_eq_none_iff]
  intro entry among
  exact bne_iff_ne.2 (ne_of_not_mem h among).symm

theorem findIdx?_of_not_mem : entries.findIdx? (fun entry => entry.1 = name) = none := by
  rw [List.findIdx?_eq_none_iff]
  intro entry among
  exact decide_eq_false (ne_of_not_mem h among)

theorem eraseP_append_of_not_mem (back : List (String × Expr)) :
    (entries ++ back).eraseP (fun entry => entry.1 = name) =
      entries ++ back.eraseP fun entry => entry.1 = name := by
  refine List.eraseP_append_right back ?_
  intro entry among
  simpa using ne_of_not_mem h among

theorem renameEntry_of_not_mem (new : String) : renameEntry name new entries = entries := by
  induction entries with
  | nil => rfl
  | cons entry rest ih =>
    obtain ⟨n, e⟩ := entry
    rw [renameEntry, if_neg (ne_of_not_mem h List.mem_cons_self), ih]
    intro among
    exact h (List.mem_cons_of_mem _ among)

theorem filter_of_not_mem : (entries.filter fun entry => entry.1 ≠ name) = entries := by
  rw [List.filter_eq_self]
  intro entry among
  exact decide_eq_true (ne_of_not_mem h among)

end NotMem

theorem split_or_absent (l : SelectList) (name : String) :
    (∃ front e back, l.entries = front ++ (name, e) :: back ∧ name ∉ front.map Prod.fst) ∨
      name ∉ l.names := by
  cases found : l.get? name with
  | some e =>
    obtain ⟨front, back, entries, others⟩ := List.lookup_eq_some_iff.1 found
    refine .inl ⟨front, e, back, entries, ?_⟩
    intro among
    obtain ⟨entry, hm, same⟩ := List.mem_map.1 among
    exact absurd same.symm (bne_iff_ne.1 (others entry hm))
  | none =>
    refine .inr ?_
    rw [← contains_iff, contains, found]
    exact Bool.false_ne_true

section Split

variable {l : SelectList} {name : String} {front back : List (String × Expr)} {old : Expr}

theorem names_of_split (h : l.entries = front ++ (name, old) :: back) :
    l.names = front.map Prod.fst ++ name :: back.map Prod.fst := by
  rw [names, h, List.map_append, List.map_cons]

theorem get?_of_split (h : l.entries = front ++ (name, old) :: back) (other : String) :
    l.get? other = (front.lookup other).or (if other = name then some old else back.lookup other) := by
  rw [get?, h, List.lookup_append, lookup_cons_eq]

theorem not_mem_of_split (h : l.entries = front ++ (name, old) :: back) (nodup : l.names.Nodup) :
    name ∉ front.map Prod.fst ∧ name ∉ back.map Prod.fst := by
  rw [names_of_split h, List.nodup_append, List.nodup_cons] at nodup
  refine ⟨?_, nodup.2.1.1⟩
  intro among
  exact nodup.2.2 name among name (by simp) rfl

variable (h : l.entries = front ++ (name, old) :: back) (first : name ∉ front.map Prod.fst)

include h first

theorem getThenInsert?_of_split (e : Expr) :
    l.getThenInsert? name e = (some old, ⟨front ++ (name, e) :: back⟩) := by
  rw [getThenInsert?, h, modifyFirst?_append first]

theorem containsThenRename_of_split (new : String) :
    l.containsThenRename name new = (true, ⟨front ++ (new, old) :: back⟩) := by
  rw [containsThenRename, h, modifyFirst?_append first]

theorem getThenErase?_of_split : l.getThenErase? name = (some old, ⟨front ++ back⟩) := by
  have place : (front ++ (name, old) :: back).findIdx? (fun entry => entry.1 = name) =
      some front.length := by
    rw [List.findIdx?_append, findIdx?_of_not_mem first]
    simp [List.findIdx?_cons]
  rw [getThenErase?, h, place]
  simp [List.eraseIdx_append_of_length_le]

end Split

section Absent

variable {l : SelectList} {name : String} (absent : name ∉ l.names)

include absent

theorem getThenInsert?_of_not_mem (e : Expr) :
    l.getThenInsert? name e = (none, ⟨l.entries ++ [(name, e)]⟩) := by
  rw [getThenInsert?, modifyFirst?_of_not_mem absent]

theorem containsThenRename_of_not_mem (new : String) :
    l.containsThenRename name new = (false, l) := by
  rw [containsThenRename, modifyFirst?_of_not_mem absent]

theorem getThenErase?_of_not_mem : l.getThenErase? name = (none, l) := by
  rw [getThenErase?, findIdx?_of_not_mem absent]

end Absent

/-! ### With and without answers -/

theorem get?_of_first {l : SelectList} {name : String} {front back : List (String × Expr)} {old : Expr}
    (h : l.entries = front ++ (name, old) :: back) (first : name ∉ front.map Prod.fst) :
    l.get? name = some old := by
  rw [get?_of_split h, lookup_of_not_mem first, if_pos rfl]
  rfl

theorem getThenInsert?_eq (l : SelectList) (name : String) (e : Expr) :
    l.getThenInsert? name e = (l.get? name, l.insert name e) := by
  rcases l.split_or_absent name with ⟨front, old, back, h, first⟩ | absent
  · rw [getThenInsert?_of_split h first, get?_of_first h first, insert, h,
      insertEntry_append name e old front back first]
  · rw [getThenInsert?_of_not_mem absent, get?, lookup_of_not_mem absent, insert,
      insertEntry_of_not_mem name e l.entries absent]

theorem getThenErase?_eq (l : SelectList) (name : String) :
    l.getThenErase? name = (l.get? name, l.erase name) := by
  rcases l.split_or_absent name with ⟨front, old, back, h, first⟩ | absent
  · rw [getThenErase?_of_split h first, get?_of_first h first, erase, h,
      eraseP_append_of_not_mem first, List.eraseP_cons_of_pos (by simp)]
  · have whole := eraseP_append_of_not_mem absent []
    rw [List.append_nil] at whole
    rw [getThenErase?_of_not_mem absent, get?, lookup_of_not_mem absent, erase, whole]
    simp

theorem containsThenRename_eq (l : SelectList) (old new : String) :
    l.containsThenRename old new = (l.contains old, l.rename old new) := by
  rcases l.split_or_absent old with ⟨front, e, back, h, first⟩ | absent
  · rw [containsThenRename_of_split h first, contains, get?_of_first h first, rename, h,
      renameEntry_append old new e front back first]
    rfl
  · rw [containsThenRename_of_not_mem absent, contains, get?, lookup_of_not_mem absent, rename,
      renameEntry_of_not_mem absent]
    rfl

/-! ### One edit -/

structure Refines (l : SelectList) (m : OrderedMap String Expr) : Prop where
  names_eq : l.names = m.order
  get?_eq : ∀ name, l.get? name = m.value name

section Step

variable {l : SelectList} {m : OrderedMap String Expr} (h : Refines l m)

include h

theorem Refines.nodup : l.names.Nodup := h.names_eq ▸ m.nodup

theorem Refines.insert (name : String) (e : Expr) : Refines (l.insert name e) (m.insert name e) where
  names_eq := by
    rw [names_insert, h.names_eq]
    rfl
  get?_eq := by
    intro other
    rw [get?_insert, h.get?_eq]
    rfl

theorem Refines.erase (name : String) : Refines (l.erase name) (m.remove name) where
  names_eq := by
    rw [names_erase, h.nodup.erase_eq_filter, h.names_eq]
    refine List.filter_congr ?_
    intro other _
    by_cases same : other = name <;> simp [same]
  get?_eq := by
    intro other
    show _ = if other = name then none else m.value other
    have erased : l.erase name = (l.getThenErase? name).2 := by rw [getThenErase?_eq]
    rcases l.split_or_absent name with ⟨front, old, back, entries, first⟩ | absent
    · obtain ⟨-, last⟩ := not_mem_of_split entries h.nodup
      rw [erased, getThenErase?_of_split entries first, get?, List.lookup_append, ← h.get?_eq,
        get?_of_split entries]
      by_cases same : other = name
      · rw [if_pos same, same, lookup_of_not_mem first, lookup_of_not_mem last]
        rfl
      · rw [if_neg same, if_neg same]
    · rw [erased, getThenErase?_of_not_mem absent, ← h.get?_eq]
      by_cases same : other = name
      · rw [if_pos same, same, get?, lookup_of_not_mem absent]
      · rw [if_neg same]

theorem Refines.rename {old new : String} (free : new ∉ l.names ∨ new = old) :
    Refines (l.rename old new) (m.rename old new) := by
  have renamed : l.rename old new = (l.containsThenRename old new).2 := by rw [containsThenRename_eq]
  rcases l.split_or_absent old with ⟨front, e, back, entries, first⟩ | absent
  · obtain ⟨-, last⟩ := not_mem_of_split entries h.nodup
    have names := names_of_split entries
    have room : old ∈ m.order ∧ (new ∉ m.order ∨ new = old) := by
      rw [← h.names_eq]
      exact ⟨by simp [names], free⟩
    rw [renamed, containsThenRename_of_split entries first, OrderedMap.rename, dif_pos room]
    constructor
    · show _ = m.order.map fun key => if key = old then new else key
      rw [← h.names_eq, names, OrderedMap.map_renamed first last]
      exact names_of_split rfl
    · intro other
      show _ = if other = new then m.value old else if other = old then none else m.value other
      rw [← h.get?_eq, ← h.get?_eq, get?_of_first entries first, get?_of_split entries,
        get?_of_split rfl]
      by_cases isNew : other = new
      · have fresh : other ∉ front.map Prod.fst := by
          rcases free with free | same
          · intro among
            exact free (isNew ▸ names ▸ List.mem_append_left _ among)
          · rw [isNew, same]
            exact first
        rw [if_pos isNew, if_pos isNew, lookup_of_not_mem fresh]
        rfl
      · rw [if_neg isNew, if_neg isNew]
        by_cases isOld : other = old
        · rw [if_pos isOld, isOld, lookup_of_not_mem first, lookup_of_not_mem last]
          rfl
        · rw [if_neg isOld, if_neg isOld]
  · have missing : ¬(old ∈ m.order ∧ (new ∉ m.order ∨ new = old)) := by
      rw [← h.names_eq]
      exact fun both => absent both.1
    rw [renamed, containsThenRename_of_not_mem absent, OrderedMap.rename, dif_neg missing]
    exact h

end Step

theorem refines_collect (pairs : List (String × Expr)) : Refines (ofList pairs) (.collect pairs) := by
  induction pairs using List.reverseRecOn with
  | nil => exact ⟨rfl, fun _ => rfl⟩
  | append_singleton init pair ih =>
    obtain ⟨name, e⟩ := pair
    have last : ofList (init ++ [(name, e)]) = (ofList init).insert name e := by
      rw [ofList, List.foldl_append]
      rfl
    rw [last]
    obtain ⟨names, values⟩ := ih.insert name e
    constructor
    · rw [names]
      show _ = ((init ++ [(name, e)]).map Prod.fst).eraseDups
      rw [List.map_append]
      exact (OrderedMap.eraseDups_append_singleton _ _).symm
    · intro other
      rw [values]
      show _ = (init ++ [(name, e)]).reverse.lookup other
      rw [List.reverse_append, List.reverse_singleton, List.singleton_append, lookup_cons_eq]
      rfl

/-- One edit gives the answer of the map, and leaves what the map becomes. -/
theorem Refines.edit {l : SelectList} {m : OrderedMap String Expr} (h : Refines l m) {x : Edit}
    (fits : x.Fits l) : (l.edit x).1 = (m.edit x).1 ∧ Refines (l.edit x).2 (m.edit x).2 := by
  cases x with
  | insert name e =>
    rw [SelectList.edit, getThenInsert?_eq, h.get?_eq]
    exact ⟨rfl, h.insert name e⟩
  | put name e => exact ⟨rfl, h.insert name e⟩
  | remove name =>
    rw [SelectList.edit, getThenErase?_eq, h.get?_eq]
    exact ⟨rfl, h.erase name⟩
  | rename old new =>
    have found : l.contains old = decide (old ∈ m.order) := by
      rw [Bool.eq_iff_iff, contains_iff, h.names_eq, decide_eq_true_eq]
    rw [SelectList.edit, containsThenRename_eq, found]
    exact ⟨rfl, h.rename fits⟩
  | collect pairs => exact ⟨rfl, refines_collect pairs⟩

theorem Refines.runEdits {l : SelectList} {m : OrderedMap String Expr} {edits : List Edit}
    (h : Refines l m) (fit : AllFit l edits) :
    (runEdits SelectList.edit l edits).1 = (runEdits OrderedMap.edit m edits).1 ∧
      Refines (runEdits SelectList.edit l edits).2 (runEdits OrderedMap.edit m edits).2 := by
  induction edits generalizing l m with
  | nil => exact ⟨rfl, h⟩
  | cons x rest ih =>
    obtain ⟨answer, next⟩ := h.edit fit.1
    obtain ⟨answers, last⟩ := ih next fit.2
    exact ⟨congrArg₂ List.cons answer answers, last⟩

/-! ### The whole list -/

theorem get?_of_mem {l : SelectList} (nodup : l.names.Nodup) {entry : String × Expr}
    (among : entry ∈ l.entries) : l.get? entry.1 = some entry.2 := by
  obtain ⟨front, back, entries⟩ := List.append_of_mem among
  exact get?_of_first entries (not_mem_of_split entries nodup).1

theorem Refines.entries_eq {l : SelectList} {m : OrderedMap String Expr} (h : Refines l m) :
    l.entries = m.toList := by
  have each : ∀ entry ∈ l.entries, (m.value entry.1).map (Prod.mk entry.1) = some entry := by
    intro entry among
    rw [← h.get?_eq, get?_of_mem h.nodup among]
    rfl
  rw [OrderedMap.toList, ← h.names_eq, names, List.filterMap_map]
  exact ((List.filterMap_congr each).trans List.filterMap_some).symm

structure Shows (l : SelectList) (m : OrderedMap String Expr) : Prop where
  nodup : l.names.Nodup
  entries_eq : l.entries = m.toList
  get?_eq : ∀ name, l.get? name = m.value name
  contains_eq : ∀ name, l.contains name = decide (name ∈ m.order)

/-- What an edit does to the entries: where it replaces or renames, the entry keeps its place; what is
removed leaves the others in their order; what is new comes last. -/
structure EditsInPlace (l : SelectList) : Prop where
  insert_present : ∀ {front back name old}, l.entries = front ++ (name, old) :: back →
    ∀ e, l.getThenInsert? name e = (some old, ⟨front ++ (name, e) :: back⟩)
  insert_absent : ∀ {name}, name ∉ l.names →
    ∀ e, l.getThenInsert? name e = (none, ⟨l.entries ++ [(name, e)]⟩)
  remove : ∀ name,
    l.getThenErase? name = (l.get? name, ⟨l.entries.filter fun entry => entry.1 ≠ name⟩)
  rename_present : ∀ {front back old e}, l.entries = front ++ (old, e) :: back →
    ∀ new, l.containsThenRename old new = (true, ⟨front ++ (new, e) :: back⟩)
  rename_absent : ∀ {old}, old ∉ l.names → ∀ new, l.containsThenRename old new = (false, l)

theorem editsInPlace_of_nodup {l : SelectList} (nodup : l.names.Nodup) : EditsInPlace l where
  insert_present h := getThenInsert?_of_split h (not_mem_of_split h nodup).1
  insert_absent := getThenInsert?_of_not_mem
  remove name := by
    rcases l.split_or_absent name with ⟨front, old, back, h, first⟩ | absent
    · obtain ⟨-, last⟩ := not_mem_of_split h nodup
      rw [getThenErase?_of_split h first, get?_of_first h first, h, List.filter_append,
        filter_of_not_mem first, List.filter_cons_of_neg (by simp), filter_of_not_mem last]
    · rw [getThenErase?_of_not_mem absent, get?, lookup_of_not_mem absent, filter_of_not_mem absent]
  rename_present h := containsThenRename_of_split h (not_mem_of_split h nodup).1
  rename_absent := containsThenRename_of_not_mem

/-- From the empty list on, every sequence of edits in which no entry gets the name of another one has the
answers of the ordered map and leads to its entries. The operations that a relation uses are the edits
without their answers. Collected pairs stand in their first places, with their last expressions. -/
theorem edits_agree_with_ordered_map (edits : List Edit) (fit : AllFit empty edits) :
    (runEdits edit empty edits).1 = (runEdits OrderedMap.edit .empty edits).1 ∧
    Shows (runEdits edit empty edits).2 (runEdits OrderedMap.edit .empty edits).2 ∧
    EditsInPlace (runEdits edit empty edits).2 ∧
    (∀ (l : SelectList) name e new, l.insert name e = (l.getThenInsert? name e).2 ∧
      l.erase name = (l.getThenErase? name).2 ∧ l.rename name new = (l.containsThenRename name new).2) ∧
    (∀ pairs : List (String × Expr), (ofList pairs).names = (pairs.map Prod.fst).eraseDups ∧
      ∀ name, (ofList pairs).get? name = pairs.reverse.lookup name) := by
  have start : Refines empty .empty := ⟨rfl, fun _ => rfl⟩
  obtain ⟨answers, last⟩ := start.runEdits fit
  refine ⟨answers, ⟨last.nodup, last.entries_eq, last.get?_eq, ?_⟩, editsInPlace_of_nodup last.nodup, ?_, ?_⟩
  · intro name
    rw [Bool.eq_iff_iff, contains_iff, last.names_eq, decide_eq_true_eq]
  · intro l name e new
    rw [getThenInsert?_eq, getThenErase?_eq, containsThenRename_eq]
    exact ⟨rfl, rfl, rfl⟩
  · intro pairs
    obtain ⟨names, values⟩ := refines_collect pairs
    exact ⟨names, values⟩

/-- A repeated name among collected pairs, a rename to another case and one to the same name, and an insert
under a name that is present. -/
theorem edits_agree_with_ordered_map_recased : ∃ (a b c : Expr) (edits : List Edit),
    edits = [.collect [("id", a), ("b", b), ("id", c)], .rename "id" "ID", .put "x" a, .insert "b" c,
      .remove "x", .remove "x", .rename "b" "b"] ∧
    AllFit empty edits ∧
    (runEdits OrderedMap.edit .empty edits).1 = [.nothing, .found true, .nothing, .expression (some b),
      .expression (some a), .expression none, .found true] ∧
    (runEdits OrderedMap.edit .empty edits).2.toList = [("ID", c), ("b", c)] := by
  let a : Expr := .foreign "sheet" "A1" true
  let b : Expr := .foreign "sheet" "B1" true
  let c : Expr := .foreign "sheet" "C1" true
  let edits : List Edit := [.collect [("id", a), ("b", b), ("id", c)], .rename "id" "ID", .put "x" a,
    .insert "b" c, .remove "x", .remove "x", .rename "b" "b"]
  have fit : AllFit empty edits := by decide
  obtain ⟨answers, shows, -⟩ := edits_agree_with_ordered_map edits fit
  refine ⟨a, b, c, edits, rfl, fit, ?_, ?_⟩
  · rw [← answers]
    decide
  · rw [← shows.entries_eq]
    decide

end SelectList

end LayeredSql
