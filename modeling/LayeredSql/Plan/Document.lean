import LayeredSql.Datum.Fields
import LayeredSql.Plan.Basic

/-! # Plans as documents

How a plan is written as data, and how it is read back. The plan and its source accept no unknown
member; steps and what they hold pass over them. -/

namespace LayeredSql

namespace Term

/-- A term is a record with a single member, which says what kind of term it is. -/
def toDatum : Term → Datum
  | column name => .record [("column", .text name)]
  | sql text => .record [("sql", .text text)]

def ofDatum? : Datum → Option Term
  | .record [("column", .text name)] => some (.column name)
  | .record [("sql", .text text)] => some (.sql text)
  | _ => none

end Term

namespace Extreme

def ofName? : String → Option Extreme
  | "min" => some min
  | "max" => some max
  | _ => none

/-- The name of an extreme, alone or as the single member of a record that holds nothing. -/
def ofDatum? : Datum → Option Extreme
  | .text name => ofName? name
  | .record [(name, .null)] => ofName? name
  | .record [(name, .record [])] => ofName? name
  | _ => none

end Extreme

namespace NamedTerm

def toDatum (t : NamedTerm) : Datum :=
  .record [("name", .text t.name), ("expr", t.term.toDatum)]

def ofDatum? (v : Datum) : Option NamedTerm := do
  match ← v.fields? .lenient ["name", "expr"] with
  | [name, expr] => return ⟨← Datum.textField name, ← expr.bind Term.ofDatum?⟩
  | _ => none

end NamedTerm

namespace OrderTerm

def toDatum (t : OrderTerm) : Datum :=
  .record [("expr", t.term.toDatum), ("function", .text t.extreme.name)]

def ofDatum? (v : Datum) : Option OrderTerm := do
  match ← v.fields? .lenient ["expr", "function"] with
  | [expr, function] => return ⟨← expr.bind Term.ofDatum?, ← function.bind Extreme.ofDatum?⟩
  | _ => none

end OrderTerm

namespace Step

/-- A step is a record with its kind under `op`. -/
def toDatum : Step → Datum
  | setColumn name value =>
    .record [("op", .text "set_column"), ("name", .text name), ("expr", value.toDatum)]
  | dropColumn name => .record [("op", .text "drop_column"), ("name", .text name)]
  | select columns =>
    .record [("op", .text "select"), ("columns", .list (columns.map NamedTerm.toDatum))]
  | filter condition => .record [("op", .text "filter"), ("condition", condition.toDatum)]
  | groupBy output keys =>
    .record [("op", .text "group_by"), ("select", .list (output.map NamedTerm.toDatum)),
      ("keys", .list (keys.map Term.toDatum))]
  | deduplicate output keys order =>
    .record [("op", .text "deduplicate"), ("select", .list (output.map NamedTerm.toDatum)),
      ("keys", .list (keys.map Term.toDatum)), ("order", .list (order.map OrderTerm.toDatum))]

/-- A step of the given kind, where `fields` finds the values of its fields. -/
def ofFields? (kind : String) (fields : List String → Option (List (Option Datum))) :
    Option Step := do
  match kind with
  | "set_column" =>
    match ← fields ["name", "expr"] with
    | [name, expr] => return .setColumn (← Datum.textField name) (← expr.bind Term.ofDatum?)
    | _ => none
  | "drop_column" =>
    match ← fields ["name"] with
    | [name] => return .dropColumn (← Datum.textField name)
    | _ => none
  | "select" =>
    match ← fields ["columns"] with
    | [columns] => return .select (← Datum.listField NamedTerm.ofDatum? columns)
    | _ => none
  | "filter" =>
    match ← fields ["condition"] with
    | [condition] => return .filter (← condition.bind Term.ofDatum?)
    | _ => none
  | "group_by" =>
    match ← fields ["select", "keys"] with
    | [output, keys] =>
      return .groupBy (← Datum.listField NamedTerm.ofDatum? output)
        (← Datum.optionalListField Term.ofDatum? keys)
    | _ => none
  | "deduplicate" =>
    match ← fields ["select", "keys", "order"] with
    | [output, keys, order] =>
      return .deduplicate (← Datum.listField NamedTerm.ofDatum? output)
        (← Datum.optionalListField Term.ofDatum? keys)
        (← Datum.optionalListField OrderTerm.ofDatum? order)
    | _ => none
  | _ => none

/-- Reads a record with its kind under `op`, or a list with its kind in front. -/
def ofDatum? : Datum → Option Step
  | .record members =>
    match Datum.valuesOf members "op" with
    | [.text kind] =>
      let others := members.filter fun member => member.1 != "op"
      ofFields? kind fun names => Datum.memberFields? .lenient names others
    | _ => none
  | .list (.text kind :: items) => ofFields? kind fun names => Datum.itemFields? names items
  | _ => none

end Step

namespace PlanSource

def toDatum (s : PlanSource) : Datum :=
  .record [("project", Datum.ofOptionalText s.project),
    ("dataset", Datum.ofOptionalText s.dataset), ("table", .text s.table), ("name", .text s.name),
    ("columns", .list (s.columns.map .text))]

def fieldNames : List String := ["project", "dataset", "table", "name", "columns"]

def ofDatum? (v : Datum) : Option PlanSource := do
  match ← v.fields? .strict fieldNames with
  | [project, dataset, table, name, columns] =>
    return {
      project := ← Datum.optionalTextField project
      dataset := ← Datum.optionalTextField dataset
      table := ← Datum.textField table
      name := ← Datum.textField name
      columns := ← Datum.listField Datum.text? columns }
  | _ => none

end PlanSource

namespace Plan

def toDatum (p : Plan) : Datum :=
  .record [("source", p.source.toDatum), ("steps", .list (p.steps.map Step.toDatum))]

def ofDatum? (v : Datum) : Option Plan := do
  match ← v.fields? .strict ["source", "steps"] with
  | [table, steps] =>
    return ⟨← table.bind PlanSource.ofDatum?, ← Datum.optionalListField Step.ofDatum? steps⟩
  | _ => none

end Plan

end LayeredSql
