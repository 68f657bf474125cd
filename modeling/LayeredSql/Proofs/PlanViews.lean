import LayeredSql.Proofs.CommandWords
import LayeredSql.Proofs.PlanDocuments
import LayeredSql.Proofs.PlanRuns

/-!
# Three views of a plan

The statement of a plan, the report on it and the list of its relations are asked for with the same
words, apart from the format. They agree on whether the plan can be carried out, whether it is
rejected, at which step and why, although each of them looks at other parts of the run.
-/

namespace LayeredSql

namespace Command

/-! ### Entries of a list of relations -/

/-- What a line of the list says behind its number: a word, and the rest. -/
structure Entry where
  word : String
  rest : String

namespace Entry

def text (entry : Entry) (index : Nat) : String :=
  toString index ++ "\t" ++ entry.word ++ "\t" ++ entry.rest ++ "\n"

def ofDerived : Derived → Entry
  | .ok r => ⟨r.operation.name, "[" ++ ", ".intercalate r.columns ++ "]\t" ++ r.sql⟩
  | .error e => ⟨"invalid", e.message⟩

theorem text_ofDerived (x : Derived) (index : Nat) :
    (ofDerived x).text index = lineageLine index x := by
  cases x with
  | ok r =>
    have tabs : "\t[" = "\t" ++ "[" := by decide
    simp only [ofDerived, text, lineageLine, tabs, String.append_assoc, -String.reduceAppend]
  | error e =>
    have tabs : "invalid\t" = "invalid" ++ "\t" := by decide
    simp only [ofDerived, text, lineageLine, tabs, String.append_assoc, -String.reduceAppend]

theorem word_ofDerived_eq_invalid_iff (x : Derived) :
    (ofDerived x).word = "invalid" ↔ x.isValid = false := by
  cases x with
  | ok r =>
    refine iff_of_false ?_ nofun
    show r.operation.name ≠ "invalid"
    cases r.operation <;> decide
  | error e => exact iff_of_true rfl rfl

def join (entries : List Entry) : String :=
  String.join (entries.zipIdx.map fun entry => entry.1.text entry.2)

theorem join_ofDerived (relations : List Derived) :
    join (relations.map ofDerived) = (lineageOutput relations).text := by
  have lines : (relations.zipIdx.map fun entry => (ofDerived entry.1).text entry.2) =
      relations.zipIdx.map fun entry => lineageLine entry.2 entry.1 :=
    List.map_congr_left fun entry _ => text_ofDerived entry.1 entry.2
  rw [join, lineageOutput, List.zipIdx_map, List.map_map, ← lines]
  rfl

end Entry

/-! ### Reports -/

/-- What is reported of a plan that ends in the relation `r`. -/
def acceptReport (config : Config) (r : Relation) : Datum :=
  .record [("valid", .bool true), ("dialect", .text config.dialect.name),
    ("columns", .list (r.columns.map .text)), ("sql", .text r.sql)]

/-- What is reported of a plan that is rejected at step `k` for the reason `e`. -/
def rejectReport (config : Config) (k : Nat) (e : Rejection) : Datum :=
  .record [("valid", .bool false), ("dialect", .text config.dialect.name), ("columns", .list []),
    ("error", .text e.message), ("rejected_step", .number (toString k))]

/-- A list of texts in a report, each on a line of its own behind four blanks. -/
def listText (texts : List String) : String :=
  if texts.isEmpty then "[]"
  else "[\n    " ++ ",\n    ".intercalate (texts.map Datum.Json.quote) ++ "\n  ]"

/-- A report of members, each from a line of its own on behind two blanks. -/
def reportText (members : List String) : String :=
  "\x7b\n  " ++ ",\n  ".intercalate members ++ "\n\x7d\n"

section Report

open Datum.Json

theorem newline_levels : newline 0 = "\n" ∧ newline 1 = "\n  " ∧ newline 2 = "\n    " := by
  decide

theorem pretty_list_text (texts : List String) :
    pretty 1 (.list (texts.map .text)) = listText texts := by
  obtain ⟨-, outer, inner⟩ := newline_levels
  have items : prettyItems 2 (texts.map .text) = texts.map quote := by
    induction texts with
    | nil => rfl
    | cons text rest ih => rw [List.map_cons, prettyItems, ih, pretty, List.map_cons]
  rw [pretty, items, block, listText, List.isEmpty_map, inner, outer, ← String.toList_inj]
  split <;> simp

theorem pretty_record {members : List (String × Datum)} (h : members ≠ []) :
    pretty 0 (.record members) ++ "\n" =
      reportText (members.map fun m => quote m.1 ++ ": " ++ pretty 1 m.2) := by
  obtain ⟨outer, inner, -⟩ := newline_levels
  have lines : prettyMembers 1 members = members.map fun m => quote m.1 ++ ": " ++ pretty 1 m.2 := by
    clear h
    induction members with
    | nil => rfl
    | cons m rest ih => rw [prettyMembers, ih, List.map_cons]
  have stands : (members.map fun m => quote m.1 ++ ": " ++ pretty 1 m.2).isEmpty = false := by
    simpa using h
  rw [pretty, lines, block, reportText, stands, inner, outer, ← String.toList_inj]
  simp

theorem quote_dialect (d : Dialect) : quote d.name = "\"" ++ d.name ++ "\"" := by
  cases d <;> rfl

theorem quote_memberNames : quote "valid" = "\"valid\"" ∧ quote "dialect" = "\"dialect\"" ∧
    quote "columns" = "\"columns\"" ∧ quote "sql" = "\"sql\"" ∧ quote "error" = "\"error\"" ∧
    quote "rejected_step" = "\"rejected_step\"" :=
  ⟨rfl, rfl, rfl, rfl, rfl, rfl⟩

theorem pretty_acceptReport (config : Config) (r : Relation) :
    pretty 0 (acceptReport config r) ++ "\n" = reportText ["\"valid\": true",
      "\"dialect\": \"" ++ config.dialect.name ++ "\"", "\"columns\": " ++ listText r.columns,
      "\"sql\": " ++ quote r.sql] := by
  rw [acceptReport, pretty_record (by simp)]
  simp only [List.map_cons, List.map_nil, pretty_list_text, quote_memberNames]
  simp only [pretty, quote_dialect, if_true]
  simp only [← String.append_assoc]
  rfl

theorem pretty_rejectReport (config : Config) (k : Nat) (e : Rejection) :
    pretty 0 (rejectReport config k e) ++ "\n" = reportText ["\"valid\": false",
      "\"dialect\": \"" ++ config.dialect.name ++ "\"", "\"columns\": []",
      "\"error\": " ++ quote e.message, "\"rejected_step\": " ++ toString k] := by
  rw [rejectReport, pretty_record (by simp)]
  simp only [List.map_cons, List.map_nil, quote_memberNames]
  simp only [pretty, quote_dialect]
  simp only [← String.append_assoc]
  rfl

theorem isSpace_feed : ∀ c ∈ "\n".toList, isSpace c = true :=
  List.forall_mem_singleton.2 rfl

theorem parse_acceptReport (config : Config) (r : Relation) :
    Datum.Json.parse (pretty 0 (acceptReport config r) ++ "\n") = some (acceptReport config r) := by
  have plain : Plain (125 + 2) (acceptReport config r) := by
    simp [acceptReport, plain_record_iff, plain_list_map, Plain.bool, Plain.text]
  exact plain.parse_pretty_append isSpace_feed

theorem parse_rejectReport (config : Config) {k : Nat} (h : k < Nat.pow 2 64) (e : Rejection) :
    Datum.Json.parse (pretty 0 (rejectReport config k e) ++ "\n") =
      some (rejectReport config k e) := by
  have step (n : Nat) : Plain n (.number k.repr) := .count n h
  have plain : Plain (125 + 2) (rejectReport config k e) := by
    simp [rejectReport, plain_record_iff, plain_list_iff, Plain.bool, Plain.text, step]
  exact plain.parse_pretty_append isSpace_feed

end Report

/-! ### The last relation of a run -/

end Command

theorem Derived.applyAll_take_of_error {x : Derived} {ops : List Operation} {e : Rejection} {j i : Nat}
    (h : x.applyAll (ops.take j) = .error e) (hj : j ≤ i) : x.applyAll (ops.take i) = .error e := by
  obtain ⟨more, rfl⟩ := Nat.exists_eq_add_of_le hj
  rw [List.take_add, applyAll, List.foldl_append]
  exact (congrArg (fun y => applyAll y _) h).trans (applyAll_error e _)

namespace Plan

variable {p : Plan} {config : Config} {t : Store}

theorem accepted_or_rejected (h : (p.compileSteps config).value = .ok t) :
    (∃ r, t.contents.getLast? = some (.ok r) ∧ firstRejectedStep t.contents = none ∧
      ∀ x ∈ t.contents, x.isValid = true) ∨
    ∃ e k, t.contents.getLast? = some (.error e) ∧ firstRejectedStep t.contents = some k ∧
      ∀ i x, t.contents[i]? = some x → (x.isValid = false ↔ k < i) ∧ (k < i → x = .error e) := by
  obtain ⟨r, -, -, rfl⟩ := run_of_ok h
  rw [Store.contents_deriveAll (content?_start r) (slots_start r)]
  generalize p.steps.map (Step.operation config.dialect) = ops
  have last : ((List.range (ops.length + 1)).map
      fun i => Derived.applyAll (.ok r) (ops.take i)).getLast? =
        some (Derived.applyAll (.ok r) (ops.take ops.length)) := by
    simp [List.range_succ]
  rw [last]
  cases hl : Derived.applyAll (.ok r) (ops.take ops.length) with
  | ok q =>
    have valid : ∀ i ≤ ops.length, (Derived.applyAll (.ok r) (ops.take i)).isValid = true := by
      intro i hi
      cases hx : Derived.applyAll (.ok r) (ops.take i) with
      | ok _ => rfl
      | error e => cases hl.symm.trans (Derived.applyAll_take_of_error hx hi)
    refine Or.inl ⟨q, rfl, firstRejectedStep_eq_none_iff.2 valid, ?_⟩
    intro x hx
    obtain ⟨i, hi, rfl⟩ := List.mem_map.1 hx
    exact valid i (Nat.le_of_lt_succ (List.mem_range.1 hi))
  | error e =>
    refine Or.inr ?_
    cases hk : firstRejectedStep ((List.range (ops.length + 1)).map
        fun i => Derived.applyAll (.ok r) (ops.take i)) with
    | none =>
      have valid := firstRejectedStep_eq_none_iff.1 hk ops.length (Nat.le_refl _)
      rw [hl] at valid
      cases valid
    | some k =>
      obtain ⟨hn, valid, invalid⟩ := (firstRejectedStep_eq_some_iff rfl).1 hk
      refine ⟨e, k, rfl, rfl, ?_⟩
      intro i x hx
      rw [List.getElem?_map] at hx
      obtain ⟨j, hj, rfl⟩ := Option.map_eq_some_iff.1 hx
      obtain ⟨-, rfl⟩ := List.getElem?_eq_some_iff.1 hj
      rw [List.getElem_range]
      by_cases hi : k < i
      · -- the rejection is the same in all places from step `k` on, the last one among them
        obtain ⟨first, rejected⟩ := (Derived.isValid_eq_false_iff _).1 invalid
        cases hl.symm.trans (Derived.applyAll_take_of_error rejected hn)
        rw [Derived.applyAll_take_of_error rejected hi]
        exact ⟨iff_of_true rfl hi, fun _ => rfl⟩
      · have before := valid i (by omega)
        exact ⟨iff_of_false (by rw [before]; exact nofun) hi, fun h => absurd h hi⟩

end Plan

namespace Command

/-! ### Runs -/

section RunOfWords

variable {world : World} {args words : List String} {request : Target → Request}

theorem run_of_target {target : Target}
    (hw : parse world.environment words = (targetOfWords world.environment args).map request)
    (h : targetOfWords world.environment args = .ok target) :
    run world words = (answer world (request target)).mapError .error := by
  simp only [run, hw, h, Except.map]
  cases answer world (request target) <;> rfl

theorem exitStatus_run_of_stop {stop : Stop}
    (hw : parse world.environment words = (targetOfWords world.environment args).map request)
    (h : targetOfWords world.environment args = .error stop) :
    exitStatus (run world words) = if stop = .usage then 2 else 0 := by
  rw [h, Except.map] at hw
  rw [run, hw]
  cases stop <;> rfl

end RunOfWords

namespace Target

variable {target : Target} {world : World}

theorem compile_of_load_error {e : Error} (h : target.load world = .error e) :
    target.compile world = .error e := by
  rw [compile, h]
  rfl

theorem compile_of_fault {config : Config} {plan : Plan} {f : PlanFault}
    (h : target.load world = .ok (config, plan))
    (hf : (plan.compileSteps config).value = .error f) : target.compile world = .error f.toError := by
  simp only [compile, h, bind, Except.bind, hf]

theorem compile_of_ok {config : Config} {plan : Plan} {t : Store}
    (h : target.load world = .ok (config, plan))
    (ht : (plan.compileSteps config).value = .ok t) :
    target.compile world = .ok (config, t.contents) := by
  simp only [compile, h, bind, Except.bind, ht]
  rfl

end Target

/-- Nothing is set, and every file holds the plan. -/
def World.ofPlan (plan : Plan) : World where
  environment _ := none
  files _ := .ok (Datum.Json.pretty 0 plan.toDatum)

theorem parse_ofPlan (plan : Plan) :
    parse (World.ofPlan plan).environment ["lineage", "-d", "postgres", "p.json"] =
      .ok (.lineage ⟨"p.json", none, some .postgreSql⟩) := by
  show parse (fun _ => none) _ = _
  decide +kernel

theorem load_ofPlan (plan : Plan) : Target.load ⟨"p.json", none, some .postgreSql⟩ (.ofPlan plan) =
    .ok (⟨.postgreSql, none, none⟩, plan) := by
  have format : planFormat "p.json" = .json := by decide +kernel
  have read : Plan.load (World.ofPlan plan).files "p.json" = .ok plan := by
    show Plan.parse (planFormat "p.json") _ = .ok plan
    rw [format]
    exact (Plan.writtenAs_pretty plan).parse_eq
  have settings : Config.withSettings default (World.ofPlan plan).environment = .ok default := rfl
  simp only [Target.load, settings, read, bind, Except.bind]
  rfl

structure Views where
  sql : Except Failure Output
  json : Except Failure Output
  lineage : Except Failure Output

/-- The three commands with the same words behind them, apart from the format. -/
def viewsOf (world : World) (args : List String) : Views where
  sql := run world ("compile" :: "--format" :: "sql" :: args)
  json := run world ("compile" :: "--format" :: "json" :: args)
  lineage := run world ("lineage" :: args)

namespace Views

structure EndWith (v : Views) (status : Nat) : Prop where
  sql : exitStatus v.sql = status
  json : exitStatus v.json = status
  lineage : exitStatus v.lineage = status

structure Fail (v : Views) : Prop extends v.EndWith 2 where
  sqlText : standardOutput v.sql = ""
  jsonText : standardOutput v.json = ""
  lineageText : standardOutput v.lineage = ""

/-- The plan ends in the relation `r`. -/
structure Accept (v : Views) (config : Config) (relations : List Derived) (r : Relation) : Prop
    extends v.EndWith 0 where
  sqlText : standardOutput v.sql = r.sql ++ "\n"
  jsonText : standardOutput v.json = reportText ["\"valid\": true",
    "\"dialect\": \"" ++ config.dialect.name ++ "\"", "\"columns\": " ++ listText r.columns,
    "\"sql\": " ++ Datum.Json.quote r.sql]
  jsonReport : Datum.Json.parse (standardOutput v.json) = some (acceptReport config r)
  lineageText : standardOutput v.lineage = Entry.join (relations.map .ofDerived)
  entry : ∀ entry ∈ relations.map Entry.ofDerived, entry.word ≠ "invalid"

/-- The plan is rejected at step `k` for the reason `e`. -/
structure Reject (v : Views) (config : Config) (relations : List Derived) (k : Nat) (e : Rejection) :
    Prop extends v.EndWith 1 where
  sqlText : standardOutput v.sql = "-- rejected: step " ++ toString k ++ ": " ++ e.message ++ "\n"
  jsonText : standardOutput v.json = reportText ["\"valid\": false",
    "\"dialect\": \"" ++ config.dialect.name ++ "\"", "\"columns\": []",
    "\"error\": " ++ Datum.Json.quote e.message, "\"rejected_step\": " ++ toString k]
  jsonReport : k < Nat.pow 2 64 →
    Datum.Json.parse (standardOutput v.json) = some (rejectReport config k e)
  lineageText : standardOutput v.lineage = Entry.join (relations.map .ofDerived)
  entry : ∀ i entry, (relations.map Entry.ofDerived)[i]? = some entry →
    (entry.word = "invalid" ↔ k < i) ∧ (k < i → entry.rest = e.message)

end Views

section Views

variable {world : World} {args : List String} {target : Target}

theorem viewsOf_eq (h : targetOfWords world.environment args = .ok target) :
    viewsOf world args = ⟨(answer world (.compile target .sql)).mapError .error,
      (answer world (.compile target .json)).mapError .error,
      (answer world (.lineage target)).mapError .error⟩ := by
  have sql : OutputFormat.ofName? "sql" = some .sql := rfl
  have json : OutputFormat.ofName? "json" = some .json := rfl
  rw [viewsOf, run_of_target (parse_compile sql args) h, run_of_target (parse_compile json args) h,
    run_of_target (parse_lineage args) h]

theorem endWith_of_stop {stop : Stop} (h : targetOfWords world.environment args = .error stop) :
    (viewsOf world args).EndWith (if stop = .usage then 2 else 0) :=
  ⟨exitStatus_run_of_stop (parse_compile rfl args) h,
    exitStatus_run_of_stop (parse_compile rfl args) h, exitStatus_run_of_stop (parse_lineage args) h⟩

theorem viewsOf_fail {e : Error} (h : targetOfWords world.environment args = .ok target)
    (hc : target.compile world = .error e) : (viewsOf world args).Fail := by
  rw [viewsOf_eq h]
  simp only [answer, hc, bind, Except.bind]
  exact ⟨⟨rfl, rfl, rfl⟩, rfl, rfl, rfl⟩

section Compiled

variable {config : Config} {relations : List Derived}

theorem viewsOf_of_compile {last : Derived} (h : targetOfWords world.environment args = .ok target)
    (hc : target.compile world = .ok (config, relations)) (hl : relations.getLast? = some last) :
    viewsOf world args = ⟨.ok ⟨sqlText last (firstRejectedStep relations), last.isValid⟩,
      .ok ⟨Datum.Json.pretty 0 (report config last (firstRejectedStep relations)) ++ "\n",
        last.isValid⟩,
      .ok ⟨Entry.join (relations.map .ofDerived), last.isValid⟩⟩ := by
  have lineage : lineageOutput relations = ⟨Entry.join (relations.map .ofDerived), last.isValid⟩ := by
    rw [Entry.join_ofDerived]
    simp [lineageOutput, hl]
  rw [viewsOf_eq h]
  simp only [answer, hc, bind, Except.bind, compileOutput, hl, lineage]
  rfl

theorem viewsOf_accept {r : Relation} (h : targetOfWords world.environment args = .ok target)
    (hc : target.compile world = .ok (config, relations))
    (hl : relations.getLast? = some (.ok r)) (none : firstRejectedStep relations = none)
    (valid : ∀ x ∈ relations, x.isValid = true) :
    (viewsOf world args).Accept config relations r := by
  rw [viewsOf_of_compile h hc hl, none]
  refine ⟨⟨rfl, rfl, rfl⟩, rfl, pretty_acceptReport config r, parse_acceptReport config r, rfl, ?_⟩
  intro entry hm
  obtain ⟨x, hx, rfl⟩ := List.mem_map.1 hm
  rw [ne_eq, Entry.word_ofDerived_eq_invalid_iff, valid x hx]
  exact nofun

theorem viewsOf_reject {e : Rejection} {k : Nat}
    (h : targetOfWords world.environment args = .ok target)
    (hc : target.compile world = .ok (config, relations))
    (hl : relations.getLast? = some (.error e)) (first : firstRejectedStep relations = some k)
    (places : ∀ i x, relations[i]? = some x →
      (x.isValid = false ↔ k < i) ∧ (k < i → x = .error e)) :
    (viewsOf world args).Reject config relations k e := by
  have line : sqlText (.error e) (some k) =
      "-- rejected: step " ++ toString k ++ ": " ++ e.message ++ "\n" := by
    show "-- rejected: " ++ ("step " ++ toString k ++ ": ") ++ e.message ++ "\n" = _
    rw [← String.append_assoc, ← String.append_assoc]
    rfl
  rw [viewsOf_of_compile h hc hl, first]
  refine ⟨⟨rfl, rfl, rfl⟩, line, pretty_rejectReport config k e,
    fun hk => parse_rejectReport config hk e, rfl, ?_⟩
  intro i entry he
  rw [List.getElem?_map] at he
  obtain ⟨x, hx, rfl⟩ := Option.map_eq_some_iff.1 he
  rw [Entry.word_ofDerived_eq_invalid_iff]
  refine ⟨(places i x hx).1, ?_⟩
  intro hi
  rw [(places i x hx).2 hi]
  rfl

end Compiled

theorem targetOfWords_of_parse
    (h : parse world.environment ("lineage" :: args) = .ok (.lineage target)) :
    targetOfWords world.environment args = .ok target := by
  rw [parse_lineage] at h
  cases ht : targetOfWords world.environment args with
  | error stop =>
    rw [ht] at h
    cases h
  | ok other =>
    rw [ht] at h
    cases h
    rfl

/-- What the three commands lead to for a target that they name. -/
def Views.Shows (v : Views) (target : Target) (world : World) : Prop :=
  (∀ e, target.load world = .error e → v.Fail) ∧
  ∀ config plan, target.load world = .ok (config, plan) →
    (∀ f, (plan.compileSteps config).value = .error f → v.Fail) ∧
    ∀ t, (plan.compileSteps config).value = .ok t →
      (∃ r, t.contents.getLast? = some (.ok r) ∧ v.Accept config t.contents r) ∨
      ∃ e k, t.contents.getLast? = some (.error e) ∧ firstRejectedStep t.contents = some k ∧
        v.Reject config t.contents k e

theorem viewsOf_shows (h : targetOfWords world.environment args = .ok target) :
    (viewsOf world args).Shows target world := by
  refine ⟨fun e he => viewsOf_fail h (Target.compile_of_load_error he), ?_⟩
  intro config plan hl
  refine ⟨fun f hf => viewsOf_fail h (Target.compile_of_fault hl hf), ?_⟩
  intro t ht
  have compiled := Target.compile_of_ok hl ht
  rcases Plan.accepted_or_rejected ht with ⟨r, last, none, valid⟩ | ⟨e, k, last, first, places⟩
  · exact Or.inl ⟨r, last, viewsOf_accept h compiled last none valid⟩
  · exact Or.inr ⟨e, k, last, first, viewsOf_reject h compiled last first places⟩

theorem Views.Shows.endWith {v : Views} (h : v.Shows target world) : ∃ status, v.EndWith status := by
  cases hl : target.load world with
  | error e => exact ⟨2, (h.1 e hl).toEndWith⟩
  | ok loaded =>
    obtain ⟨failed, done⟩ := h.2 loaded.1 loaded.2 hl
    cases ht : (loaded.2.compileSteps loaded.1).value with
    | error f => exact ⟨2, (failed f ht).toEndWith⟩
    | ok t =>
      rcases done t ht with ⟨r, -, accept⟩ | ⟨e, k, -, -, reject⟩
      · exact ⟨0, accept.toEndWith⟩
      · exact ⟨1, reject.toEndWith⟩

/-- The three commands end with one status whatever the words are, and show the same of a plan that the
words name. -/
theorem views_agree (world : World) (args : List String) :
    (∃ status, (viewsOf world args).EndWith status) ∧
    ∀ target, parse world.environment ("lineage" :: args) = .ok (.lineage target) →
      (viewsOf world args).Shows target world := by
  constructor
  · cases h : targetOfWords world.environment args with
    | error stop => exact ⟨_, endWith_of_stop h⟩
    | ok target => exact (viewsOf_shows h).endWith
  · intro target h
    exact viewsOf_shows (targetOfWords_of_parse h)

/-- A plan whose second step is rejected. -/
def rejectedPlan : Plan where
  source := { project := none, dataset := some "d", table := "t", name := "n", columns := ["a", "b"] }
  steps := [.dropColumn "a", .filter (.sql "("), .dropColumn "b"]

theorem views_agree_rejected :
    ∃ t, parse (World.ofPlan rejectedPlan).environment ["lineage", "-d", "postgres", "p.json"] =
        .ok (.lineage ⟨"p.json", none, some .postgreSql⟩) ∧
      Target.load ⟨"p.json", none, some .postgreSql⟩ (.ofPlan rejectedPlan) =
        .ok (⟨.postgreSql, none, none⟩, rejectedPlan) ∧
      (rejectedPlan.compileSteps ⟨.postgreSql, none, none⟩).value = .ok t ∧
      (viewsOf (.ofPlan rejectedPlan) ["-d", "postgres", "p.json"]).Reject ⟨.postgreSql, none, none⟩
        t.contents 1 .unsupportedExpression ∧
      standardOutput (viewsOf (.ofPlan rejectedPlan) ["-d", "postgres", "p.json"]).json =
        "\x7b\n  \"valid\": false,\n  \"dialect\": \"postgresql\",\n  \"columns\": [],\n" ++
        "  \"error\": \"Unsupported or invalid expression type.\",\n" ++
        "  \"rejected_step\": 1\n\x7d\n" := by
  have named := parse_ofPlan rejectedPlan
  have loaded := load_ofPlan rejectedPlan
  have final : (rejectedPlan.compileSteps ⟨.postgreSql, none, none⟩).value.toOption.map (fun t =>
      (t.contents.getLast?, firstRejectedStep t.contents)) =
        some (some (.error .unsupportedExpression), some 1) := by
    decide +kernel
  obtain ⟨t, value, ends⟩ := Option.map_eq_some_iff.1 final
  obtain ⟨atEnd, step⟩ := Prod.mk.inj ends
  have compiled := Plan.eq_ok_of_toOption value
  have shows := (views_agree (.ofPlan rejectedPlan) ["-d", "postgres", "p.json"]).2 _ named
  rcases (shows.2 _ _ loaded).2 t compiled with ⟨r, last, -⟩ | ⟨e, k, last, first, reject⟩
  · cases atEnd.symm.trans last
  · cases atEnd.symm.trans last
    cases step.symm.trans first
    exact ⟨t, named, loaded, compiled, reject, reject.jsonText.trans (by decide +kernel)⟩

end Views

end Command

end LayeredSql
