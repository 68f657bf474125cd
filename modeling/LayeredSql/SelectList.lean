import LayeredSql.Expr

/-! # Select lists

Named expressions in the order in which they were first named. Inserting under a name that is
present replaces the expression and keeps its place. Renaming does not look for a name that is
already there, so names can repeat after it; lookups then find the first. -/

namespace LayeredSql

structure SelectList where
  entries : List (String × Expr)
deriving DecidableEq

namespace SelectList

def empty : SelectList := ⟨[]⟩

def length (l : SelectList) : Nat := l.entries.length

def isEmpty (l : SelectList) : Bool := l.entries.isEmpty

def names (l : SelectList) : List String := l.entries.map Prod.fst

def expressions (l : SelectList) : List Expr := l.entries.map Prod.snd

/-- The first expression under the name. -/
def get? (l : SelectList) (name : String) : Option Expr := l.entries.lookup name

def contains (l : SelectList) (name : String) : Bool := (l.get? name).isSome

/-- Replaces the first expression under the name, or adds the name at the end. -/
def insertEntry (name : String) (e : Expr) : List (String × Expr) → List (String × Expr)
  | [] => [(name, e)]
  | (n, old) :: rest => if n = name then (n, e) :: rest else (n, old) :: insertEntry name e rest

def insert (l : SelectList) (name : String) (e : Expr) : SelectList :=
  ⟨insertEntry name e l.entries⟩

/-- Removes the first entry under the name. -/
def erase (l : SelectList) (name : String) : SelectList :=
  ⟨l.entries.eraseP fun entry => entry.1 = name⟩

/-- Gives the first entry named `old` the name `new`. -/
def renameEntry (old new : String) : List (String × Expr) → List (String × Expr)
  | [] => []
  | (n, e) :: rest => if n = old then (new, e) :: rest else (n, e) :: renameEntry old new rest

def rename (l : SelectList) (old new : String) : SelectList := ⟨renameEntry old new l.entries⟩

/-- Changes the first entry under the name, and gives back the entry as it was. -/
def modifyFirst? (name : String) (change : String × Expr → String × Expr) :
    List (String × Expr) → Option ((String × Expr) × List (String × Expr))
  | [] => none
  | entry :: rest =>
    if entry.1 = name then some (entry, change entry :: rest)
    else (modifyFirst? name change rest).map fun (found, rest) => (found, entry :: rest)

/-- Inserts, and gives back the expression that was replaced. -/
def getThenInsert? (l : SelectList) (name : String) (e : Expr) : Option Expr × SelectList :=
  match modifyFirst? name (fun entry => (entry.1, e)) l.entries with
  | some (found, entries) => (some found.2, ⟨entries⟩)
  | none => (none, ⟨l.entries ++ [(name, e)]⟩)

/-- Erases, and gives back the expression that was removed. -/
def getThenErase? (l : SelectList) (name : String) : Option Expr × SelectList :=
  match l.entries.findIdx? fun entry => entry.1 = name with
  | some i => (l.entries[i]?.map Prod.snd, ⟨l.entries.eraseIdx i⟩)
  | none => (none, l)

/-- Renames, and says whether there was an entry to rename. -/
def containsThenRename (l : SelectList) (old new : String) : Bool × SelectList :=
  match modifyFirst? old (fun entry => (new, entry.2)) l.entries with
  | some (_, entries) => (true, ⟨entries⟩)
  | none => (false, l)

/-- Inserts the pairs one after the other. -/
def ofList (pairs : List (String × Expr)) : SelectList :=
  pairs.foldl (fun l pair => l.insert pair.1 pair.2) empty

/-! ### Names and lookups after each operation -/

@[simp] theorem names_empty : empty.names = [] := rfl

theorem map_fst_insertEntry (name : String) (e : Expr) (entries : List (String × Expr)) :
    (insertEntry name e entries).map Prod.fst =
      if name ∈ entries.map Prod.fst then entries.map Prod.fst
      else entries.map Prod.fst ++ [name] := by
  induction entries with
  | nil => rfl
  | cons entry rest ih =>
    obtain ⟨n, old⟩ := entry
    by_cases h : n = name
    · simp [insertEntry, h]
    · have h' : ¬name = n := fun eq => h eq.symm
      rw [insertEntry, if_neg h, List.map_cons, ih]
      by_cases hm : name ∈ List.map Prod.fst rest <;> simp [h', hm]

theorem names_insert (l : SelectList) (name : String) (e : Expr) :
    (l.insert name e).names = if name ∈ l.names then l.names else l.names ++ [name] :=
  map_fst_insertEntry name e l.entries

theorem lookup_cons_eq (other n : String) (e : Expr) (rest : List (String × Expr)) :
    List.lookup other ((n, e) :: rest) = if other = n then some e else rest.lookup other := by
  by_cases h : other = n
  · rw [if_pos h, List.lookup_cons, beq_iff_eq.2 h]
  · rw [if_neg h, List.lookup_cons, beq_false_of_ne h]

theorem get?_insert (l : SelectList) (name other : String) (e : Expr) :
    (l.insert name e).get? other = if other = name then some e else l.get? other := by
  obtain ⟨entries⟩ := l
  simp only [get?, insert]
  induction entries with
  | nil => exact lookup_cons_eq other name e []
  | cons entry rest ih =>
    obtain ⟨n, old⟩ := entry
    by_cases h : n = name
    · subst h
      by_cases h' : other = n <;> simp [insertEntry, lookup_cons_eq, h']
    · by_cases h' : other = n
      · simp [insertEntry, h, h']
      · simp [insertEntry, lookup_cons_eq, h, h', ih]

theorem names_erase (l : SelectList) (name : String) :
    (l.erase name).names = l.names.erase name := by
  obtain ⟨entries⟩ := l
  simp only [names, erase]
  induction entries with
  | nil => rfl
  | cons entry rest ih =>
    obtain ⟨n, old⟩ := entry
    by_cases h : n = name
    · simp [h]
    · rw [List.map_cons, List.erase_cons_tail (by simpa using h), ← ih]
      simp [h]

theorem names_rename (l : SelectList) (old new : String) :
    (l.rename old new).names = l.names.replace old new := by
  obtain ⟨entries⟩ := l
  simp only [names, rename]
  induction entries with
  | nil => rfl
  | cons entry rest ih =>
    obtain ⟨n, e⟩ := entry
    by_cases h : n = old
    · simp [renameEntry, h]
    · have h' : (old == n) = false := beq_false_of_ne (Ne.symm h)
      rw [renameEntry, if_neg h, List.map_cons, List.map_cons, List.replace_cons, h', ih]

theorem contains_iff (l : SelectList) (name : String) :
    l.contains name = true ↔ name ∈ l.names := by
  obtain ⟨entries⟩ := l
  simp only [contains, get?, names]
  induction entries with
  | nil => simp
  | cons entry rest ih =>
    obtain ⟨n, e⟩ := entry
    rw [lookup_cons_eq, List.map_cons, List.mem_cons]
    by_cases h : name = n
    · simp [h]
    · rw [if_neg h, ih]
      simp [h]

theorem modifyFirst?_of_not_mem {name : String} {entries : List (String × Expr)}
    (h : name ∉ entries.map Prod.fst) (change : String × Expr → String × Expr) :
    modifyFirst? name change entries = none := by
  induction entries with
  | nil => rfl
  | cons entry rest ih =>
    simp only [List.map_cons, List.mem_cons, not_or] at h
    rw [modifyFirst?, if_neg (Ne.symm h.1), ih h.2]
    rfl

theorem modifyFirst?_append {name : String} {front : List (String × Expr)}
    (h : name ∉ front.map Prod.fst) (change : String × Expr → String × Expr) (e : Expr)
    (back : List (String × Expr)) :
    modifyFirst? name change (front ++ (name, e) :: back) =
      some ((name, e), front ++ change (name, e) :: back) := by
  induction front with
  | nil => simp [modifyFirst?]
  | cons entry rest ih =>
    simp only [List.map_cons, List.mem_cons, not_or] at h
    rw [List.cons_append, modifyFirst?, if_neg (Ne.symm h.1), ih h.2]
    rfl

@[simp] theorem length_rename (l : SelectList) (old new : String) :
    (l.rename old new).length = l.length := by
  obtain ⟨entries⟩ := l
  simp only [length, rename]
  induction entries with
  | nil => rfl
  | cons entry rest ih =>
    obtain ⟨n, e⟩ := entry
    by_cases h : n = old <;> simp [renameEntry, h, ih]

end SelectList

end LayeredSql
