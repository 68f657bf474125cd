import LayeredSql.Datum.Fields
import LayeredSql.Datum.Toml
import LayeredSql.Error

/-! # Configuration

The dialect to write for, and the project and dataset of plans that name none. A configuration is
read from a document and then overridden by named settings, of which blank ones do not count. -/

namespace LayeredSql

structure Config where
  dialect : Dialect
  project : Option String
  dataset : Option String
deriving DecidableEq, Repr

namespace Config

instance : Inhabited Config := ⟨default, none, none⟩

def documentDialect? : String → Option Dialect
  | "bigquery" => some .bigQuery
  | "postgresql" | "postgres" => some .postgreSql
  | _ => none

/-- The name of a dialect, alone or as the single member of a record that holds nothing. -/
def dialectOfDatum? : Datum → Option Dialect
  | .text name => documentDialect? name
  | .record [(name, .record [])] => documentDialect? name
  | .record [(name, .list [])] => documentDialect? name
  | _ => none

def ofDatum? (v : Datum) : Option Config := do
  match ← v.fields? .strict ["dialect", "project", "dataset"] with
  | [dialect, project, dataset] =>
    return {
      dialect := ← match dialect with
        | some v => dialectOfDatum? v
        | none => some default
      project := ← Datum.optionalTextField project
      dataset := ← Datum.optionalTextField dataset }
  | _ => none

def parse (source : String) : Except Error Config :=
  match (Datum.Toml.parse source).bind ofDatum? with
  | some config => .ok config
  | none => .error .configDocument

/-! ### Settings -/

def dialectSetting : String := "PUSHDOWN_DIALECT"
def projectSetting : String := "PUSHDOWN_PROJECT"
def datasetSetting : String := "PUSHDOWN_DATASET"

/-- A setting that is given and not blank. -/
def setting? (lookup : String → Option String) (name : String) : Option String :=
  (lookup name).filter fun v => !Text.isBlankText v

/-- The configuration with the given settings in place of its own values. -/
def withSettings (config : Config) (lookup : String → Option String) : Except Error Config := do
  let dialect ← match setting? lookup dialectSetting with
    | some text => Dialect.parse text
    | none => .ok config.dialect
  return {
    dialect
    project := (setting? lookup projectSetting).or config.project
    dataset := (setting? lookup datasetSetting).or config.dataset }

end Config

end LayeredSql
