import LayeredSql.Operation.Kind

/-! # Rejections -/

namespace LayeredSql

inductive DefinitionKind where
  | groupBy
  | deduplicate
deriving DecidableEq, Repr

def DefinitionKind.name : DefinitionKind → String
  | groupBy => "GroupByDefinition"
  | deduplicate => "DeduplicateDefinition"

/-- Why an operation was rejected. A rejected relation keeps this as its only content. -/
inductive Rejection where
  | unsupportedExpression
  | invalidDefinition (kind : DefinitionKind)
deriving DecidableEq, Repr

def Rejection.message : Rejection → String
  | unsupportedExpression => "Unsupported or invalid expression type."
  | invalidDefinition kind => kind.name ++ " contains unsupported or invalid expressions"

/-- The rejection that an operation of the given kind ends in. -/
def OperationKind.rejection : OperationKind → Rejection
  | groupBy => .invalidDefinition .groupBy
  | deduplicate => .invalidDefinition .deduplicate
  | _ => .unsupportedExpression

end LayeredSql
