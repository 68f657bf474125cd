import LayeredSql.Plan.Compile
import LayeredSql.Plan.Parse
import LayeredSql.Proofs.JsonText

/-!
# Plans survive being written

The data that stand for a plan are read as that plan, whatever its texts, its steps and the lists in
them, and whether or not it names a project and a dataset. Their nesting is bounded, and numbers do not
stand in them, so that they also survive being printed.
-/

namespace LayeredSql

/-! ### Data -/

theorem Datum.listField_map {α : Type} {item : Datum → Option α} {data : α → Datum}
    (h : ∀ a, item (data a) = some a) (as : List α) :
    Datum.listField item (some (.list (as.map data))) = some as := by
  show (as.map data).mapM item = some as
  induction as with
  | nil => rfl
  | cons a as ih => simp [h, ih]

theorem Datum.optionalTextField_ofOptionalText (s : Option String) :
    Datum.optionalTextField (some (Datum.ofOptionalText s)) = some s := by
  cases s <;> rfl

theorem Term.ofDatum?_toDatum (t : Term) : Term.ofDatum? t.toDatum = some t := by
  cases t <;> rfl

theorem Extreme.ofDatum?_name (e : Extreme) : Extreme.ofDatum? (.text e.name) = some e := by
  cases e <;> rfl

theorem NamedTerm.ofDatum?_toDatum (t : NamedTerm) : NamedTerm.ofDatum? t.toDatum = some t := by
  show (Term.ofDatum? t.term.toDatum).bind (fun term => some (NamedTerm.mk t.name term)) = some t
  rw [Term.ofDatum?_toDatum]
  rfl

theorem OrderTerm.ofDatum?_toDatum (t : OrderTerm) : OrderTerm.ofDatum? t.toDatum = some t := by
  show (Term.ofDatum? t.term.toDatum).bind (fun term =>
    (Extreme.ofDatum? (.text t.extreme.name)).bind fun extreme =>
      some (OrderTerm.mk term extreme)) = some t
  rw [Term.ofDatum?_toDatum, Extreme.ofDatum?_name]
  rfl

theorem Step.ofDatum?_toDatum (step : Step) : Step.ofDatum? step.toDatum = some step := by
  have named := Datum.listField_map NamedTerm.ofDatum?_toDatum
  have terms := Datum.listField_map Term.ofDatum?_toDatum
  have orders := Datum.listField_map OrderTerm.ofDatum?_toDatum
  cases step with
  | setColumn name value =>
    show (Term.ofDatum? value.toDatum).bind (fun value => some (setColumn name value)) = _
    rw [Term.ofDatum?_toDatum]
    rfl
  | dropColumn name => rfl
  | select columns =>
    show (Datum.listField NamedTerm.ofDatum? (some _)).bind (fun columns => some (select columns)) = _
    rw [named]
    rfl
  | filter condition =>
    show (Term.ofDatum? condition.toDatum).bind (fun condition => some (filter condition)) = _
    rw [Term.ofDatum?_toDatum]
    rfl
  | groupBy output keys =>
    show (Datum.listField NamedTerm.ofDatum? (some _)).bind (fun output =>
      (Datum.listField Term.ofDatum? (some _)).bind fun keys => some (groupBy output keys)) = _
    rw [named, terms]
    rfl
  | deduplicate output keys order =>
    show (Datum.listField NamedTerm.ofDatum? (some _)).bind (fun output =>
      (Datum.listField Term.ofDatum? (some _)).bind fun keys =>
        (Datum.listField OrderTerm.ofDatum? (some _)).bind fun order =>
          some (deduplicate output keys order)) = _
    rw [named, terms, orders]
    rfl

theorem PlanSource.ofDatum?_toDatum (s : PlanSource) : PlanSource.ofDatum? s.toDatum = some s := by
  show (Datum.optionalTextField (some (Datum.ofOptionalText s.project))).bind (fun project =>
    (Datum.optionalTextField (some (Datum.ofOptionalText s.dataset))).bind fun dataset =>
      (Datum.listField Datum.text? (some (.list (s.columns.map .text)))).bind fun columns =>
        some (PlanSource.mk project dataset s.table s.name columns)) = some s
  have texts : ∀ s, Datum.text? (.text s) = some s := fun _ => rfl
  rw [Datum.optionalTextField_ofOptionalText, Datum.optionalTextField_ofOptionalText,
    Datum.listField_map texts]
  rfl

theorem Plan.ofDatum?_toDatum (p : Plan) : Plan.ofDatum? p.toDatum = some p := by
  show (PlanSource.ofDatum? p.source.toDatum).bind (fun source =>
    (Datum.listField Step.ofDatum? (some (.list (p.steps.map Step.toDatum)))).bind fun steps =>
      some (Plan.mk source steps)) = some p
  rw [PlanSource.ofDatum?_toDatum, Datum.listField_map Step.ofDatum?_toDatum]
  rfl

/-! ### Text -/

namespace Datum.Json

theorem plain_list_map {α : Type} {data : α → Datum} {n : Nat} (h : ∀ a, Plain n (data a))
    (as : List α) : Plain (n + 1) (.list (as.map data)) := by
  rw [plain_list_iff, List.forall_mem_map]
  exact fun a _ => h a

theorem plain_ofOptionalText (n : Nat) (s : Option String) : Plain n (ofOptionalText s) := by
  cases s with
  | none => exact .null n
  | some s => exact .text n s

theorem plain_term (n : Nat) (t : Term) : Plain (n + 1) t.toDatum := by
  cases t <;> simp [Term.toDatum, plain_record_iff, Plain.text]

theorem plain_namedTerm (n : Nat) (t : NamedTerm) : Plain (n + 2) t.toDatum := by
  simp [NamedTerm.toDatum, plain_record_iff, plain_term, Plain.text]

theorem plain_orderTerm (n : Nat) (t : OrderTerm) : Plain (n + 2) t.toDatum := by
  simp [OrderTerm.toDatum, plain_record_iff, plain_term, Plain.text]

theorem plain_step (n : Nat) (step : Step) : Plain (n + 4) step.toDatum := by
  cases step <;> simp [Step.toDatum, plain_record_iff, plain_list_map, plain_term, plain_namedTerm,
    plain_orderTerm, Plain.text]

theorem plain_source (n : Nat) (s : PlanSource) : Plain (n + 2) s.toDatum := by
  simp [PlanSource.toDatum, plain_record_iff, plain_list_map, plain_ofOptionalText, Plain.text]

theorem plain_plan (n : Nat) (p : Plan) : Plain (n + 6) p.toDatum := by
  simp [Plan.toDatum, plain_record_iff, plain_list_map, plain_source, plain_step]

end Datum.Json

namespace Plan

/-- The text is a JSON document that holds the data of the plan. -/
def WrittenAs (p : Plan) (text : String) : Prop := Datum.Json.parse text = some p.toDatum

theorem writtenAs_pretty (p : Plan) : p.WrittenAs (Datum.Json.pretty 0 p.toDatum) :=
  (Datum.Json.plain_plan 121 p).parse_pretty

theorem parse_of_data {text : String} {v : Datum} {p : Plan}
    (h : Datum.Json.parse text = some v) (hv : ofDatum? v = some p) :
    Plan.parse .json text = .ok p := by
  have read : Plan.parse? .json text = some p := by
    show (Datum.Json.parse text).bind ofDatum? = some p
    rw [h]
    exact hv
  rw [Plan.parse, read]

theorem WrittenAs.parse_eq {p : Plan} {text : String} (h : p.WrittenAs text) :
    Plan.parse .json text = .ok p :=
  parse_of_data h (ofDatum?_toDatum p)

/-- Every plan can be written, each way to write it is read as that plan, and so writing what was read
from a document changes neither the plan nor what becomes of it. -/
theorem written_plan_reads_back :
    (∀ p : Plan, p.WrittenAs (Datum.Json.pretty 0 p.toDatum)) ∧
    (∀ (p : Plan) (text : String), p.WrittenAs text → Plan.parse .json text = .ok p) ∧
    ∀ (source text : String) (p : Plan), Plan.parse .json source = .ok p → p.WrittenAs text →
      Plan.parse .json text = Plan.parse .json source ∧
      ∀ config, (Plan.parse .json text).map (fun q => q.compileSteps config) =
        (Plan.parse .json source).map (fun q => q.compileSteps config) := by
  refine ⟨writtenAs_pretty, fun p text h => h.parse_eq, fun source text p hs ht => ?_⟩
  have same : Plan.parse .json text = Plan.parse .json source := by rw [ht.parse_eq, hs]
  exact ⟨same, fun config => by rw [same]⟩

/-- The data of a plan with its steps in front, and a step that is tagged at its end, has no order and
takes its keys from a fragment with a control character. -/
def taggedData : Datum :=
  .record [
    ("steps", .list [.record [
      ("select", .list []),
      ("keys", .list [.record [("sql", .text "\x01\"\"")]]),
      ("op", .text "deduplicate")]]),
    ("source", .record [
      ("name", .text ""),
      ("columns", .list []),
      ("table", .text "t"),
      ("dataset", .text "d")])]

def taggedPlan : Plan where
  source := { project := none, dataset := some "d", table := "t", name := "", columns := [] }
  steps := [.deduplicate [] [.sql "\x01\"\""] []]

theorem written_plan_reads_back_tagged :
    ∃ text, Plan.parse .json (Datum.Json.pretty 0 taggedData) = .ok taggedPlan ∧
      taggedPlan.WrittenAs text ∧ text ≠ Datum.Json.pretty 0 taggedData ∧
      Plan.parse .json text = .ok taggedPlan ∧
      ∀ config, (Plan.parse .json text).map (fun q => q.compileSteps config) =
        (Plan.parse .json (Datum.Json.pretty 0 taggedData)).map (fun q => q.compileSteps config) := by
  have plain : Datum.Json.Plain 127 taggedData := by
    simp [taggedData, Datum.Json.plain_record_iff, Datum.Json.plain_list_iff, Datum.Json.Plain.text]
  have read := parse_of_data plain.parse_pretty (show ofDatum? taggedData = some taggedPlan from rfl)
  have written := written_plan_reads_back.1 taggedPlan
  have again := written_plan_reads_back.2.1 taggedPlan _ written
  have same := written_plan_reads_back.2.2 _ _ taggedPlan read written
  exact ⟨_, read, written, by decide +kernel, again, same.2⟩

end Plan

end LayeredSql
