import LayeredSql.Fragment
import LayeredSql.Rejection

/-! # Events

What the library reports while it works, as plain data: a level, a message and named values. -/

namespace LayeredSql

inductive Event where
  | illegalIdentifier (dialect : Dialect) (column : String)
  | refusedFragment (dialect : Dialect) (problem : Fragment.Problem)
  | createdBase (dialect : Dialect) (table : String) (columns : Nat)
  | compiledRelation (operation : OperationKind) (columns depth : Nat)
  | rejectedOperation (operation : OperationKind) (error : Rejection)
  | loadedConfig (path : String) (dialect : Dialect)
  | rejectedStep (step : Nat) (error : Rejection)
deriving DecidableEq, Repr

namespace Event

inductive Level where
  | debug
  | warn
deriving DecidableEq, Repr

def Level.name : Level → String
  | debug => "DEBUG"
  | warn => "WARN"

def level : Event → Level
  | rejectedStep .. => .warn
  | _ => .debug

def message : Event → String
  | illegalIdentifier .. => "rejected illegal identifier"
  | refusedFragment .. => "rejected SQL fragment"
  | createdBase .. => "created base relation"
  | compiledRelation .. => "compiled relation"
  | rejectedOperation .. => "rejected relation operation"
  | loadedConfig .. => "loaded config"
  | rejectedStep .. => "plan step rejected"

inductive FieldValue where
  | count (n : Nat)
  | text (s : String)
deriving DecidableEq, Repr

/-- The named values that go with the message. -/
def fields : Event → List (String × FieldValue)
  | illegalIdentifier d column => [("dialect", .text d.name), ("column", .text column)]
  | refusedFragment d problem => [("dialect", .text d.name), ("problem", .text problem.message)]
  | createdBase d table columns =>
    [("dialect", .text d.name), ("table", .text table), ("columns", .count columns)]
  | compiledRelation operation columns depth =>
    [("operation", .text operation.name), ("columns", .count columns), ("depth", .count depth)]
  | rejectedOperation operation error =>
    [("operation", .text operation.name), ("error", .text error.message)]
  | loadedConfig path d => [("path", .text path), ("dialect", .text d.name)]
  | rejectedStep step error => [("step", .count step), ("error", .text error.message)]

end Event

end LayeredSql
