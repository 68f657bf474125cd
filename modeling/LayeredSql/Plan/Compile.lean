import LayeredSql.Config
import LayeredSql.Plan.Basic
import LayeredSql.Relation.Store

/-! # Compiling a plan

Carries out a plan for a configuration. The result holds the base relation in slot 0 and the
relation after step `i` in slot `i + 1`. A rejected step does not end the run: the later steps still
have their expressions made, and their slots hold the same rejection. What ends the run is a plan
that cannot be carried out at all. -/

namespace LayeredSql

/-- Why a plan cannot be carried out. -/
inductive PlanFault where
  | noDataset (table : String)
  | noProject (table : String)
  | base (fault : BaseFault)
  /-- A select list of the step names a column twice. -/
  | repeatedColumn (step : Nat) (column : String)
  /-- There is no relation to give back, not even the base. -/
  | noRelation
deriving DecidableEq, Repr

def PlanFault.toError : PlanFault → Error
  | noDataset table => .plan ("source '" ++ table ++ "' has no dataset and none is configured")
  | noProject table => .plan ("source '" ++ table ++ "' has no project and none is configured")
  | base fault => fault.toError
  | repeatedColumn step column =>
    .plan ("step " ++ toString step ++ ": column '" ++ column ++ "' is listed more than once")
  | noRelation => .internal "compiled plan is empty"

/-! ### Steps -/

def Term.resolve (d : Dialect) : Term → Logged Expr
  | column name => Expr.column d name
  | sql text => Expr.fragment d text

def resolveAll (d : Dialect) (terms : List Term) : Logged (List Expr) :=
  terms.mapM (Term.resolve d)

/-- Adds the terms to a select list. The first name that is already there ends it. -/
def resolveOnto (d : Dialect) (l : SelectList) :
    List NamedTerm → Logged (Except String SelectList)
  | [] => pure (.ok l)
  | t :: rest =>
    if l.contains t.name then pure (.error t.name)
    else do
      let e ← t.term.resolve d
      resolveOnto d (l.insert t.name e) rest

def resolveList (d : Dialect) (terms : List NamedTerm) : Logged (Except String SelectList) :=
  resolveOnto d .empty terms

def resolveOrder (d : Dialect) (terms : List OrderTerm) : Logged (List OrderItem) :=
  terms.mapM fun t => do return ⟨← t.term.resolve d, t.extreme⟩

/-- The operation of a step, or the column name that its select list repeats. -/
def Step.resolve (d : Dialect) : Step → Logged (Except String Operation)
  | setColumn name value => do return .ok (.setColumn name (← value.resolve d))
  | dropColumn name => pure (.ok (.dropColumn name))
  | select columns => do
    match ← resolveList d columns with
    | .error name => return .error name
    | .ok l => return .ok (.select l)
  | filter condition => do return .ok (.filter (← condition.resolve d))
  | groupBy output keys => do
    match ← resolveList d output with
    | .error name => return .error name
    | .ok l => return .ok (.groupBy ⟨l, ← resolveAll d keys⟩)
  | deduplicate output keys order => do
    let order ← resolveOrder d order
    match ← resolveList d output with
    | .error name => return .error name
    | .ok l => return .ok (.deduplicate ⟨l, ← resolveAll d keys, order⟩)

/-! ### Plans -/

namespace Plan

/-- The stored table of a plan, once project and dataset are settled. -/
def tableSource (p : Plan) (config : Config) : Except PlanFault TableSource := do
  let s := p.source
  let dataset ← match s.dataset.or config.dataset with
    | some dataset => .ok dataset
    | none => .error (.noDataset s.table)
  let project ← match s.project.or config.project with
    | some project => .ok project
    | none => if config.dialect.usesProject then .error (.noProject s.table) else .ok ""
  return { project, dataset, table := s.table, name := s.name, columns := s.columns }

def baseRelation (p : Plan) (config : Config) : Logged (Except PlanFault Relation) :=
  match p.tableSource config with
  | .error f => pure (.error f)
  | .ok source => do
    match ← Relation.load config.dialect source with
    | .error f => return .error (.base f)
    | .ok r => return .ok r

/-- What is reported when a step turns a valid relation into a rejection. -/
def rejectionEvents (index : Nat) (before after : Option Derived) : List Event :=
  match before, after with
  | some (.ok _), some (.error e) => [.rejectedStep index e]
  | _, _ => []

/-- Takes the steps on the node `current`, the first of which has the given index. -/
def takeSteps (d : Dialect) (index : Nat) (current : NodeId) (s : Store) :
    List Step → Logged (Except PlanFault Store)
  | [] => pure (.ok s)
  | step :: rest => do
    match ← step.resolve d with
    | .error column => return .error (.repeatedColumn index column)
    | .ok op =>
      let (next, id) ← s.derive current op
      Logged.reportAll (rejectionEvents index (s.content? current) (next.content? id))
      takeSteps d (index + 1) id next rest

/-- All relations of the plan, each in its slot. -/
def compileSteps (p : Plan) (config : Config) : Logged (Except PlanFault Store) := do
  match ← p.baseRelation config with
  | .error f => return .error f
  | .ok r => takeSteps config.dialect 0 0 (Store.empty.add (.ok r) none) p.steps

/-- The last relation of the plan, which alone stays held. -/
def compile (p : Plan) (config : Config) : Logged (Except PlanFault Store) := do
  match ← p.compileSteps config with
  | .error f => return .error f
  | .ok s => return if s.slots.isEmpty then .error .noRelation else .ok s.keepLast

end Plan

/-- The step that the first rejection among the relations of a plan comes from. -/
def firstRejectedStep (relations : List Derived) : Option Nat :=
  (relations.findIdx? fun x => !x.isValid).map (· - 1)

end LayeredSql
