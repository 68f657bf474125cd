import LayeredSql.Command.Help
import LayeredSql.File
import LayeredSql.Plan.Compile

/-! # The command line

Three commands: `compile` writes the statement of a plan or a report on it, `lineage` writes every
relation of a plan on a line, and `quote` writes names as they stand in statements. A command ends
with an output, which says whether everything was accepted, or with a failure. -/

namespace LayeredSql.Command

inductive OutputFormat where
  | sql
  | json
deriving DecidableEq, Repr

def OutputFormat.ofName? : String → Option OutputFormat
  | "sql" => some .sql
  | "json" => some .json
  | _ => none

/-- Which plan to take, and what is said about its configuration. -/
structure Target where
  plan : String
  config : Option String
  dialect : Option Dialect
deriving DecidableEq, Repr

inductive Request where
  | compile (target : Target) (format : OutputFormat)
  | lineage (target : Target)
  | quote (dialect : Dialect) (identifiers : List String)
deriving DecidableEq, Repr

/-- The files that a request reads. -/
def Request.paths : Request → List String
  | compile target _ | lineage target => target.config.toList ++ [target.plan]
  | quote .. => []

/-- The surroundings of a run: environment variables and files. -/
structure World where
  environment : String → Option String
  files : Files

/-! ### Requests -/

def knownInFront : List OptionName := [.verbose, .help, .version]
def compileForm : Form := ⟨[.verbose, .help, .config, .dialect, .format], .path⟩
def lineageForm : Form := ⟨[.verbose, .help, .config, .dialect], .path⟩
def quoteForm : Form := ⟨[.verbose, .help, .dialect], .texts⟩

/-- Whether a value suits its option. -/
def isProperValue (name : OptionName) (value : String) : Bool :=
  match name with
  | .config => !value.isEmpty
  | .dialect => (Dialect.ofName? value).isSome
  | .format => (OutputFormat.ofName? value).isSome
  | _ => true

/-- The dialect that is asked for: by option, or else by the environment. -/
def dialectOf (environment : String → Option String) (g : Given) : Except Stop (Option Dialect) :=
  match (g.value? .dialect).or (environment Config.dialectSetting) with
  | none => .ok none
  | some text =>
    match Dialect.ofName? text with
    | some d => .ok (some d)
    | none => .error .usage

def targetOf (environment : String → Option String) (g : Given) : Except Stop Target := do
  match g.operands with
  | [plan] => return { plan, config := g.value? .config, dialect := ← dialectOf environment g }
  | _ => .error .usage

/-- Whether help can be given on the words: on nothing in particular, on a command, or on help. -/
def isHelpTopic : List String → Bool
  | [] => true
  | [word] => (Topic.ofCommand? word).isSome
  | _ => false

/-- The request that the words of a command line make. -/
def parse (environment : String → Option String) (words : List String) : Except Stop Request := do
  let (command, rest) ← readFront knownInFront .empty words
  match command with
  | "compile" =>
    let g ← Given.empty.collect compileForm isProperValue rest
    let format := ((g.value? .format).bind OutputFormat.ofName?).getD .sql
    return .compile (← targetOf environment g) format
  | "lineage" =>
    let g ← Given.empty.collect lineageForm isProperValue rest
    return .lineage (← targetOf environment g)
  | "quote" =>
    let g ← Given.empty.collect quoteForm isProperValue rest
    if g.operands.isEmpty then .error .usage
    return .quote ((← dialectOf environment g).getD default) g.operands
  | "help" => .error (if isHelpTopic rest then .help else .usage)
  | _ => .error .usage

/-! ### Answers -/

/-- What a command writes, and whether everything was accepted. -/
structure Output where
  text : String
  accepted : Bool
deriving DecidableEq, Repr

/-- The configuration and the plan of a target. -/
def Target.load (t : Target) (world : World) : Except Error (Config × Plan) := do
  let config ← match t.config with
    | some path => (Config.load world.files path).value
    | none => .ok default
  let config ← config.withSettings world.environment
  let config := { config with dialect := t.dialect.getD config.dialect }
  return (config, ← Plan.load world.files t.plan)

/-- The configuration of a target and the relations of its plan. -/
def Target.compile (t : Target) (world : World) : Except Error (Config × List Derived) := do
  let (config, plan) ← t.load world
  match (plan.compileSteps config).value with
  | .ok store => return (config, store.contents)
  | .error f => .error f.toError

def stepLabel : Option Nat → String
  | some step => "step " ++ toString step ++ ": "
  | none => ""

def sqlText (relation : Derived) (rejectedStep : Option Nat) : String :=
  match relation with
  | .ok r => r.sql ++ "\n"
  | .error e => "-- rejected: " ++ stepLabel rejectedStep ++ e.message ++ "\n"

/-- The report on a plan: a record without the members that do not apply. -/
def report (config : Config) (relation : Derived) (rejectedStep : Option Nat) : Datum :=
  let sql := match relation with
    | .ok r => [("sql", Datum.text r.sql)]
    | .error e => [("error", Datum.text e.message)]
  let step := match rejectedStep with
    | some n => [("rejected_step", Datum.number (toString n))]
    | none => []
  .record ([("valid", .bool relation.isValid), ("dialect", .text config.dialect.name),
    ("columns", .list (relation.columns.map .text))] ++ sql ++ step)

def compileOutput (config : Config) (relations : List Derived) (format : OutputFormat) :
    Except Error Output :=
  match relations.getLast? with
  | none => .error PlanFault.noRelation.toError
  | some last =>
    let step := firstRejectedStep relations
    let text := match format with
      | .sql => sqlText last step
      | .json => Datum.Json.pretty 0 (report config last step) ++ "\n"
    .ok ⟨text, last.isValid⟩

/-- One relation on a line, with tabs between its parts. -/
def lineageLine (index : Nat) (relation : Derived) : String :=
  toString index ++ "\t" ++
    match relation with
    | .ok r => r.operation.name ++ "\t[" ++ ", ".intercalate r.columns ++ "]\t" ++ r.sql ++ "\n"
    | .error e => "invalid\t" ++ e.message ++ "\n"

def lineageOutput (relations : List Derived) : Output where
  text := String.join (relations.zipIdx.map fun entry => lineageLine entry.2 entry.1)
  accepted := relations.getLast?.any Derived.isValid

/-- A name as it stands in a statement; an illegal one is marked. -/
def quoteLine (d : Dialect) (identifier : String) : String :=
  (if d.isLegal identifier then d.quote identifier else "!" ++ identifier) ++ "\n"

def quoteOutput (d : Dialect) (identifiers : List String) : Output where
  text := String.join (identifiers.map (quoteLine d))
  accepted := identifiers.all d.isLegal

def answer (world : World) : Request → Except Error Output
  | .compile target format => do
    let (config, relations) ← target.compile world
    compileOutput config relations format
  | .lineage target => do return lineageOutput (← target.compile world).2
  | .quote d identifiers => .ok (quoteOutput d identifiers)

/-! ### Runs -/

inductive Failure where
  /-- The words make no request. -/
  | usage
  | error (e : Error)
deriving DecidableEq, Repr

def versionText : String := "pushdown 0.4.0\n"

/-- What the words ask help on: the command that they name, or the one behind the word `help`. -/
def topicOf (words : List String) : Topic :=
  match readFront knownInFront .empty words with
  | .ok ("help", rest) => (rest.head?.bind Topic.ofCommand?).getD .program
  | .ok (command, _) => (Topic.ofCommand? command).getD .program
  | .error _ => .program

def helpText (world : World) (words : List String) : String :=
  ((topicOf words).page (world.environment Config.dialectSetting)).text

/-- Everything that a command line leads to. -/
def run (world : World) (words : List String) : Except Failure Output :=
  match parse world.environment words with
  | .error .usage => .error .usage
  | .error .help => .ok ⟨helpText world words, true⟩
  | .error .version => .ok ⟨versionText, true⟩
  | .ok request =>
    match answer world request with
    | .ok output => .ok output
    | .error e => .error (.error e)

/-- What a run writes to the standard output. A failure is told elsewhere. -/
def standardOutput : Except Failure Output → String
  | .ok output => output.text
  | .error _ => ""

/-- The exit status of a run. -/
def exitStatus : Except Failure Output → Nat
  | .ok output => if output.accepted then 0 else 1
  | .error _ => 2

end LayeredSql.Command
