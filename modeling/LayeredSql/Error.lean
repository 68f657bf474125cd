import LayeredSql.Dialect.Basic

/-! # Errors

What can go wrong outside the relational algebra, with the text of each error. Documents that cannot
be read are reported as such, without a place or cause. -/

namespace LayeredSql

inductive DocumentFormat where
  | json
  | toml
deriving DecidableEq, Repr

inductive Error where
  | invalidArgument (reason : String)
  | plan (reason : String)
  | planDocument (format : DocumentFormat)
  | planFile (path reason : String)
  | config (reason : String)
  | configDocument
  | file (reason : String)
  | internal (reason : String)
deriving DecidableEq, Repr

namespace Error

/-- Who has to act on an error. -/
inductive Kind where
  | user
  | config
  | internal
deriving DecidableEq, Repr

def Kind.name : Kind → String
  | user => "USER"
  | config => "CONFIG"
  | internal => "INTERNAL"

def kind : Error → Kind
  | invalidArgument _ | plan _ | planDocument _ | planFile .. => .user
  | config _ | configDocument | file _ => .config
  | internal _ => .internal

def message : Error → String
  | invalidArgument reason => "invalid argument: " ++ reason
  | plan reason => "plan error: " ++ reason
  | planDocument _ => "plan decode error"
  | planFile path reason => "cannot read plan " ++ path ++ ": " ++ reason
  | config reason => "invalid configuration: " ++ reason
  | configDocument => "toml decode error"
  | file reason => "io error: " ++ reason
  | internal reason => "internal error: " ++ reason

/-- No dialect goes by the name. -/
def unknownDialect (text : String) : Error :=
  .config ("unknown dialect '" ++ Dialect.normalName text ++
    "', expected 'bigquery' or 'postgresql'")

end Error

/-- The dialect that a text names, or the error that it names none. -/
def Dialect.parse (text : String) : Except Error Dialect :=
  match ofName? text with
  | some d => .ok d
  | none => .error (.unknownDialect text)

end LayeredSql
