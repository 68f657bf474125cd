import LayeredSql.Datum.Json
import LayeredSql.Datum.Toml
import LayeredSql.Error
import LayeredSql.Plan.Document

/-! # Reading plans from text

A plan is written in JSON or in TOML. In TOML a source that is written as a list may go on behind
its last field. What stands there is never looked at, so that it may even hold numbers that cannot
be read; everywhere else such a number spoils the document. -/

namespace LayeredSql

/-- The source without what stands behind the last field of its list. -/
def PlanSource.dropExcess : Datum → Datum
  | .list items => .list (items.take fieldNames.length)
  | v => v

namespace Plan

/-- The members of a plan without what stands behind the last field of its source. -/
def dropExcess (members : List (String × Datum)) : List (String × Datum) :=
  members.map fun (name, v) => (name, if name = "source" then PlanSource.dropExcess v else v)

/-- The plan that the data of a TOML document describe. -/
def ofToml? : Datum → Option Plan
  | .record members =>
    let v := Datum.record (dropExcess members)
    if Datum.Toml.isReadable v then ofDatum? v else none
  | _ => none

def parse? (format : DocumentFormat) (source : String) : Option Plan :=
  match format with
  | .json => (Datum.Json.parse source).bind ofDatum?
  | .toml => (Datum.Toml.parse source).bind ofToml?

def parse (format : DocumentFormat) (source : String) : Except Error Plan :=
  match parse? format source with
  | some p => .ok p
  | none => .error (.planDocument format)

end Plan

end LayeredSql
