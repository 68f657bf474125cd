import LayeredSql.Datum

/-! # Fields of data

Data with named fields is a record, or the list of its fields in order. Fields at the end of such a
list may be left off. A known member of a record must not be given twice; an unknown one is refused
or passed over, and then does not matter. -/

namespace LayeredSql

namespace Datum

/-- Whether unknown members of a record are refused or passed over. -/
inductive Strictness where
  | strict
  | lenient
deriving DecidableEq, Repr

/-- The values of a name among the members. -/
def valuesOf (members : List (String × Datum)) (name : String) : List Datum :=
  (members.filter fun member => member.1 == name).map Prod.snd

/-- The values of the named members, each absent or given once. -/
def memberFields? (strictness : Strictness) (names : List String)
    (members : List (String × Datum)) : Option (List (Option Datum)) :=
  if strictness = .strict ∧ ¬ members.all (fun member => names.contains member.1) then none
  else if names.all fun name => (valuesOf members name).length ≤ 1 then
    some (names.map fun name => (valuesOf members name).head?)
  else none

/-- The items in the places of the named fields; fields at the end may be absent. -/
def itemFields? (names : List String) (items : List Datum) : Option (List (Option Datum)) :=
  if items.length ≤ names.length then some (names.zipIdx.map fun entry => items[entry.2]?) else none

/-- The fields of a record, or of the list that stands for it, in the order of the names. -/
def fields? (strictness : Strictness) (names : List String) : Datum → Option (List (Option Datum))
  | record members => memberFields? strictness names members
  | list items => itemFields? names items
  | _ => none

/-! ### Values of fields -/

def textField (v : Option Datum) : Option String := v.bind text?

/-- Text that may be absent or null. -/
def optionalTextField : Option Datum → Option (Option String)
  | none | some null => some none
  | some v => v.text?.map some

def listField {α : Type} (item : Datum → Option α) (v : Option Datum) : Option (List α) := do
  (← v.bind list?).mapM item

/-- A list that is empty when absent. -/
def optionalListField {α : Type} (item : Datum → Option α) : Option Datum → Option (List α)
  | none => some []
  | some v => listField item (some v)

/-- Text that may be missing, as data. -/
def ofOptionalText : Option String → Datum
  | none => null
  | some s => text s

end Datum

end LayeredSql
