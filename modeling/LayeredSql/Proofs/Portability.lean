import LayeredSql.Proofs.PlanRuns
import Mathlib.Data.List.Find
import Mathlib.Data.List.Forall2

/-!
# Plans that mean the same in both dialects

The dialects differ in how they read backslashes, backticks and number signs in fragments, in which
names they accept, and in whether the case of a name matters. A plan that touches none of these
differences is carried out alike for both: the two runs go in step, and what differs is the text of the
statements only.
-/

namespace LayeredSql

/-! ### Fragments -/

namespace Fragment

/-- Characters that both dialects read alike. -/
def Shared (c : Char) : Prop := c ≠ '\\' ∧ c ≠ '\x60' ∧ c ≠ '#'

instance (c : Char) : Decidable (Shared c) := inferInstanceAs (Decidable (_ ∧ _ ∧ _))

theorem codeStep_of_shared {c : Char} (h : Shared c) (depth : Nat) :
    codeStep .bigQuery depth c = codeStep .postgreSql depth c := by
  obtain ⟨-, backtick, hash⟩ := h
  simp only [codeStep, backtick, hash, false_and, if_false]

theorem step_of_shared {c : Char} (h : Shared c) (s : State) :
    step .bigQuery s c = step .postgreSql s c := by
  have code := codeStep_of_shared h s.depth
  have escape (d : Dialect) : ¬(c = '\\' ∧ d.escapesByBackslash = true) := fun he => h.1 he.1
  unfold step
  cases s.mode with
  | quoted q => simp only [if_neg (escape _)]
  | escaped q => rfl
  | _ => simp only [code]

theorem checkedRun_of_shared {cs : List Char} (h : ∀ c ∈ cs, Shared c) (s : State) :
    checkedRun .bigQuery s cs = checkedRun .postgreSql s cs := by
  induction cs generalizing s with
  | nil => rfl
  | cons c cs ih =>
    rw [List.forall_mem_cons] at h
    have first : checkedStep .bigQuery s c = checkedStep .postgreSql s c := by
      rw [checkedStep, checkedStep, step_of_shared h.1]
    rw [checkedRun_cons, checkedRun_cons, first]
    cases checkedStep .postgreSql s c with
    | error p => rfl
    | ok next => exact ih h.2 next

theorem problem_of_shared {text : String} (h : ∀ c ∈ text.toList, Shared c) :
    problem .bigQuery text = problem .postgreSql text := by
  rw [problem, problem, runProblem, runProblem, checkedRun_of_shared h]

end Fragment

/-! ### Plans -/

namespace Step

/-- The columns that the step speaks of by name, other than in references. -/
def namedColumns : Step → List String
  | dropColumn name => [name]
  | step => step.outputNames

end Step

namespace Plan

def fragments (p : Plan) : List String :=
  p.steps.flatMap fun step => step.terms.filterMap fun
    | .sql text => some text
    | .column _ => none

def references (p : Plan) : List String :=
  p.steps.flatMap fun step => step.terms.filterMap fun
    | .column name => some name
    | .sql _ => none

def checkedNames (p : Plan) : List String :=
  p.source.name :: p.source.columns ++ p.steps.flatMap Step.outputNames ++ p.references

def comparedNames (p : Plan) : List String := p.source.columns ++ p.steps.flatMap Step.namedColumns

/-- Fragments hold characters only that both dialects read alike, names are legal in both dialects or in
neither, and no two different ones have the same lowercase form. -/
structure Portable (p : Plan) : Prop where
  fragments : ∀ text ∈ p.fragments, ∀ c ∈ text.toList, Fragment.Shared c
  legal : ∀ name ∈ p.checkedNames,
    Dialect.isLegal .bigQuery name = Dialect.isLegal .postgreSql name
  spelling : ∀ a ∈ p.comparedNames, ∀ b ∈ p.comparedNames,
    Text.lowercase a = Text.lowercase b → a = b

end Plan

namespace Plan.Portable

variable {p : Plan} {step : Step}

theorem sameColumn_eq (h : p.Portable) {a b : String} (ha : a ∈ p.comparedNames)
    (hb : b ∈ p.comparedNames) :
    Dialect.sameColumn .bigQuery a b = Dialect.sameColumn .postgreSql a b := by
  rw [Bool.eq_iff_iff, Dialect.sameColumn_iff, Dialect.sameColumn_iff]
  exact ⟨h.spelling a ha b hb, congrArg Text.lowercase⟩

theorem namesFit_iff (h : p.Portable) {names : List String} (checked : ∀ a ∈ names, a ∈ p.checkedNames)
    (compared : ∀ a ∈ names, a ∈ p.comparedNames) :
    Operation.NamesFit .bigQuery names ↔ Operation.NamesFit .postgreSql names := by
  refine and_congr (forall₂_congr fun a ha => by rw [h.legal a (checked a ha)]) ?_
  exact List.Pairwise.iff_of_mem fun ha hb => by
    rw [h.sameColumn_eq (compared _ ha) (compared _ hb)]

theorem refused_iff (h : p.Portable) (hs : step ∈ p.steps) {t : Term} (ht : t ∈ step.terms) :
    t.Refused .bigQuery ↔ t.Refused .postgreSql := by
  cases t with
  | column name =>
    have reference : name ∈ p.references :=
      List.mem_flatMap.2 ⟨step, hs, List.mem_filterMap.2 ⟨_, ht, rfl⟩⟩
    rw [Term.Refused, Term.Refused, h.legal name (List.mem_append_right _ reference)]
  | sql text =>
    have fragment : text ∈ p.fragments :=
      List.mem_flatMap.2 ⟨step, hs, List.mem_filterMap.2 ⟨_, ht, rfl⟩⟩
    rw [Term.Refused, Term.Refused, Fragment.problem_of_shared (h.fragments text fragment)]

theorem mem_comparedNames (hs : step ∈ p.steps) {name : String} (hn : name ∈ step.namedColumns) :
    name ∈ p.comparedNames :=
  List.mem_append_right _ (List.mem_flatMap.2 ⟨step, hs, hn⟩)

theorem acceptable_iff (h : p.Portable) (hs : step ∈ p.steps) :
    (step.operation .bigQuery).acceptable .bigQuery = true ↔
      (step.operation .postgreSql).acceptable .postgreSql = true := by
  have names : ∀ a ∈ step.outputNames, a ∈ step.namedColumns := by
    cases step with
    | dropColumn name => exact nofun
    | _ => exact fun a ha => ha
  rw [Step.acceptable_operation_iff, Step.acceptable_operation_iff, Step.not_refusedBy_iff,
    Step.not_refusedBy_iff]
  refine and_congr (forall₂_congr fun t ht => not_congr (h.refused_iff hs ht)) ?_
  refine h.namesFit_iff ?_ fun a ha => mem_comparedNames hs (names a ha)
  intro a ha
  exact List.mem_append_left _ (List.mem_append_right _ (List.mem_flatMap.2 ⟨step, hs, ha⟩))

end Plan.Portable

/-! ### Columns after a step -/

namespace Relation

variable {r q : Relation} {step : Step}

theorem names_selected (h : r.dialect.acceptsColumns r.columns = true) :
    r.selected.names = r.columns :=
  names_selectColumns (Dialect.nodup_of_acceptsColumns h)

theorem names_outputList_congr (same : r.selected.names = q.selected.names)
    (found : ∀ name ∈ step.namedColumns, r.column? name = q.column? name) (d d' : Dialect) :
    (r.outputList (step.operation d)).names = (q.outputList (step.operation d')).names := by
  have entries (d d' : Dialect) (terms : List NamedTerm) :
      (terms.map (NamedTerm.entry d)).map Prod.fst = (terms.map (NamedTerm.entry d')).map Prod.fst := by
    simp [NamedTerm.entry]
  cases step with
  | setColumn name value =>
    have column := found name (List.mem_singleton_self name)
    simp only [Step.operation, outputList, column]
    cases q.column? name with
    | none => simp only [SelectList.names_insert, same]
    | some c => simp only [SelectList.names_insert, SelectList.names_rename, same]
  | dropColumn name =>
    have column := found name (List.mem_singleton_self name)
    simp only [Step.operation, outputList, column]
    cases q.column? name with
    | none => exact same
    | some c => simp only [SelectList.names_erase, same]
  | select columns => exact entries d d' columns
  | filter condition => exact same
  | groupBy output keys => exact entries d d' output
  | deduplicate output keys order => exact entries d d' output

theorem mem_names_outputList (h : r.dialect.acceptsColumns r.columns = true) {d : Dialect}
    {name : String} (hn : name ∈ (r.outputList (step.operation d)).names) :
    name ∈ r.columns ∨ name ∈ step.namedColumns := by
  have entries (terms : List NamedTerm)
      (hn : name ∈ (terms.map (NamedTerm.entry d)).map Prod.fst) : name ∈ terms.map NamedTerm.name := by
    simpa [NamedTerm.entry] using hn
  cases step with
  | setColumn other value =>
    cases hc : r.column? other with
    | none =>
      rw [Step.operation, SelectList.names, entries_setColumn_of_none _ h hc, List.map_append,
        map_fst_reference] at hn
      exact List.mem_append.1 hn
    | some column =>
      obtain ⟨front, back, split, -, list⟩ := entries_setColumn_of_some (value.expr d) h hc
      rw [Step.operation, SelectList.names, list, List.map_append, List.map_cons, map_fst_reference,
        map_fst_reference] at hn
      rw [split]
      rcases List.mem_append.1 hn with hn | hn
      · exact Or.inl (List.mem_append_left _ hn)
      · rcases List.mem_cons.1 hn with hn | hn
        · exact Or.inr (List.mem_singleton.2 hn)
        · exact Or.inl (List.mem_append_right _ (List.mem_cons_of_mem _ hn))
  | dropColumn other =>
    rw [Step.operation, SelectList.names, entries_dropColumn other h, map_fst_reference] at hn
    exact Or.inl (List.mem_filter.1 hn).1
  | filter condition =>
    have kept : name ∈ r.selected.names := hn
    rw [names_selected h] at kept
    exact Or.inl kept
  | select columns => exact Or.inr (entries columns hn)
  | groupBy output keys => exact Or.inr (entries output hn)
  | deduplicate output keys order => exact Or.inr (entries output hn)

end Relation

/-! ### Two runs in step -/

/-- Alike in everything but the statement: the same error, or the same columns, depth and operation. -/
def Derived.Alike : Derived → Derived → Prop
  | .ok r, .ok q => r.columns = q.columns ∧ r.depth = q.depth ∧ r.operation = q.operation
  | .error e, .error f => e = f
  | _, _ => False

/-- Relations of the two dialects that are alike, with columns among the given names. -/
structure InStep (names : List String) (r q : Relation) : Prop where
  left : r.dialect = .bigQuery ∧ r.dialect.acceptsColumns r.columns = true
  right : q.dialect = .postgreSql ∧ q.dialect.acceptsColumns q.columns = true
  columns : r.columns = q.columns
  named : ∀ c ∈ r.columns, c ∈ names
  depth : r.depth = q.depth
  operation : r.operation = q.operation

def RunsInStep (names : List String) (x y : Derived) : Prop :=
  (∃ r q, x = .ok r ∧ y = .ok q ∧ InStep names r q) ∨ ∃ e, x = .error e ∧ y = .error e

theorem RunsInStep.alike {names : List String} {x y : Derived} (h : RunsInStep names x y) :
    x.Alike y := by
  rcases h with ⟨r, q, rfl, rfl, h⟩ | ⟨e, rfl, rfl⟩
  · exact ⟨h.columns, h.depth, h.operation⟩
  · rfl

namespace Plan.Portable

variable {p : Plan} {step : Step}

theorem inStep_apply (h : p.Portable) (hs : step ∈ p.steps) {r q : Relation}
    (hr : InStep p.comparedNames r q) :
    RunsInStep p.comparedNames (r.apply (step.operation .bigQuery))
      (q.apply (step.operation .postgreSql)) := by
  obtain ⟨⟨bigQuery, left⟩, ⟨postgreSql, right⟩, columns, named, depth, -⟩ := hr
  have kinds : (step.operation .bigQuery).kind = (step.operation .postgreSql).kind := by
    cases step <;> rfl
  have same : r.selected.names = q.selected.names := by
    rw [Relation.names_selected left, Relation.names_selected right, columns]
  have found (name : String) (hn : name ∈ step.namedColumns) : r.column? name = q.column? name := by
    rw [Relation.column?, Relation.column?, bigQuery, postgreSql, ← columns]
    exact List.find?_congr fun c hc =>
      h.sameColumn_eq (named c hc) (mem_comparedNames hs hn)
  have outputs := Relation.names_outputList_congr same found .bigQuery .postgreSql
  have accepts : (step.operation .bigQuery).acceptable r.dialect = true ↔
      (step.operation .postgreSql).acceptable q.dialect = true := by
    rw [bigQuery, postgreSql]
    exact h.acceptable_iff hs
  by_cases ha : (step.operation .bigQuery).acceptable r.dialect = true
  · have ha' := accepts.1 ha
    refine Or.inl ⟨_, _, (Relation.apply_eq_ok_iff r _ _).2 ⟨ha, rfl⟩,
      (Relation.apply_eq_ok_iff q _ _).2 ⟨ha', rfl⟩, ⟨bigQuery, ?_⟩, ⟨postgreSql, ?_⟩, outputs, ?_,
      congrArg (· + 1) depth, kinds⟩
    · exact Relation.acceptsColumns_outputList left ha
    · exact Relation.acceptsColumns_outputList right ha'
    · intro c hc
      rcases Relation.mem_names_outputList left hc with hc | hc
      · exact named c hc
      · exact mem_comparedNames hs hc
  · have ha' := mt accepts.2 ha
    refine Or.inr ⟨_, Relation.apply_of_not_acceptable ha, ?_⟩
    rw [Relation.apply_of_not_acceptable ha', kinds]

theorem runsInStep_applyAll (h : p.Portable) {steps : List Step} (hs : ∀ step ∈ steps, step ∈ p.steps)
    {x y : Derived} (hx : RunsInStep p.comparedNames x y) :
    RunsInStep p.comparedNames (x.applyAll (steps.map (Step.operation .bigQuery)))
      (y.applyAll (steps.map (Step.operation .postgreSql))) := by
  induction steps generalizing x y with
  | nil => exact hx
  | cons step rest ih =>
    rw [List.forall_mem_cons] at hs
    refine ih hs.2 ?_
    rcases hx with ⟨r, q, rfl, rfl, hr⟩ | ⟨e, rfl, rfl⟩
    · exact h.inStep_apply hs.1 hr
    · exact Or.inr ⟨e, rfl, rfl⟩

end Plan.Portable

theorem firstRejectedStep_of_alike {entries others : List Derived}
    (h : List.Forall₂ Derived.Alike entries others) :
    firstRejectedStep entries = firstRejectedStep others := by
  have valid : entries.map Derived.isValid = others.map Derived.isValid := by
    induction h with
    | nil => rfl
    | @cons x y _ _ alike _ ih =>
      have same : x.isValid = y.isValid := by
        cases x <;> cases y <;> first | rfl | exact alike.elim
      rw [List.map_cons, List.map_cons, same, ih]
  have byValidity (entries : List Derived) : firstRejectedStep entries =
      ((entries.map Derived.isValid).findIdx? fun b => !b).map (· - 1) := by
    rw [firstRejectedStep, List.findIdx?_map]
    rfl
  rw [byValidity, byValidity, valid]

namespace Plan

variable {p : Plan} {config : Config} {project dataset : String}

def tableOf (p : Plan) (project dataset : String) : TableSource :=
  ⟨project, dataset, p.source.table, p.source.name, p.source.columns⟩

theorem tableSource_of_some (hp : p.source.project.or config.project = some project)
    (hd : p.source.dataset.or config.dataset = some dataset) :
    p.tableSource config = .ok (p.tableOf project dataset) := by
  simp only [tableSource, hp, hd]
  rfl

theorem Portable.fault_eq_none_iff (h : p.Portable) (hp : Text.isBlankText project = false) :
    (p.tableOf project dataset).fault .bigQuery = none ↔
      (p.tableOf project dataset).fault .postgreSql = none := by
  have name : p.source.name ∈ p.checkedNames := by simp [checkedNames]
  have columns : Dialect.acceptsColumns .bigQuery p.source.columns = true ↔
      Dialect.acceptsColumns .postgreSql p.source.columns = true := by
    simp only [Dialect.acceptsColumns, Bool.and_eq_true, List.all_eq_true, Bool.not_eq_true',
      Dialect.hasRepeated_eq_false_iff]
    refine h.namesFit_iff (fun a ha => ?_) fun a ha => List.mem_append_left _ ha
    simp [checkedNames, ha]
  rw [TableSource.fault_eq_none_iff, TableSource.fault_eq_none_iff]
  simp only [tableOf, hp, columns, h.legal _ name, implies_true]

theorem exists_baseRelation_iff (hp : p.source.project.or config.project = some project)
    (hd : p.source.dataset.or config.dataset = some dataset) :
    (∃ r, (p.baseRelation config).value = .ok r) ↔
      (p.tableOf project dataset).fault config.dialect = none := by
  simp only [value_baseRelation_eq_ok_iff, tableSource_of_some hp hd, Except.ok.injEq,
    exists_eq_left', Relation.ofTable_eq_ok_iff, exists_and_left, exists_eq, and_true]

theorem exists_ok_iff : (∃ t, (p.compileSteps config).value = .ok t) ↔
    (∃ r, (p.baseRelation config).value = .ok r) ∧ ∀ step ∈ p.steps, step.listed.Nodup := by
  constructor
  · rintro ⟨t, ht⟩
    obtain ⟨r, hb, hs, -⟩ := run_of_ok ht
    exact ⟨⟨r, hb⟩, hs⟩
  · rintro ⟨⟨r, hb⟩, hs⟩
    exact ⟨_, value_compileSteps_of_nodup hb hs⟩

theorem inStep_base {r q : Relation} {s : TableSource} (named : ∀ c ∈ s.columns, c ∈ p.comparedNames)
    (hr : Relation.ofTable .bigQuery s = .ok r) (hq : Relation.ofTable .postgreSql s = .ok q) :
    InStep p.comparedNames r q := by
  have reached : Relation.Reached .bigQuery s [] r := Relation.Reached.nil_iff.2 hr
  have reached' : Relation.Reached .postgreSql s [] q := Relation.Reached.nil_iff.2 hq
  have columns {d : Dialect} {x : Relation} (hx : Relation.ofTable d s = .ok x) :
      x.columns = s.columns ∧ x.depth = 0 ∧ x.operation = .base := by
    obtain ⟨fault, rfl⟩ := (Relation.ofTable_eq_ok_iff d s x).1 hx
    have accepted := TableSource.acceptsColumns_of_fault_eq_none fault
    exact ⟨Relation.names_selectColumns (Dialect.nodup_of_acceptsColumns accepted), rfl, rfl⟩
  obtain ⟨left, depth, kind⟩ := columns hr
  obtain ⟨right, depth', kind'⟩ := columns hq
  refine ⟨⟨reached.dialect_eq, reached.acceptsColumns⟩, ⟨reached'.dialect_eq, reached'.acceptsColumns⟩,
    left.trans right.symm, ?_, depth.trans depth'.symm, kind.trans kind'.symm⟩
  rw [left]
  exact named

theorem Portable.alike_contents (h : p.Portable) {r q : Relation}
    (hr : InStep p.comparedNames r q) :
    List.Forall₂ Derived.Alike
      ((start r).deriveAll 0 (p.steps.map (Step.operation .bigQuery))).1.contents
      ((start q).deriveAll 0 (p.steps.map (Step.operation .postgreSql))).1.contents := by
  rw [Store.contents_deriveAll (content?_start r) (slots_start r),
    Store.contents_deriveAll (content?_start q) (slots_start q), List.length_map, List.length_map,
    List.forall₂_map_left_iff, List.forall₂_map_right_iff, List.forall₂_same]
  intro i _
  rw [← List.map_take, ← List.map_take]
  exact (h.runsInStep_applyAll (fun step hm => List.mem_of_mem_take hm)
    (Or.inl ⟨r, q, rfl, rfl, hr⟩)).alike

/-- A portable plan with a project and a dataset fails in both dialects or in neither. If it does not
fail, the relations of both runs are alike, so that the first rejection is at the same step. A blank
dataset needs no exception, since both dialects refuse it. -/
theorem compileSteps_agree_on_portable (p : Plan) (config : Config)
    (hp : p.source.project.or config.project = some project)
    (given : Text.isBlankText project = false)
    (hd : p.source.dataset.or config.dataset = some dataset) (h : p.Portable) :
    (∃ f g, (p.compileSteps { config with dialect := .bigQuery }).value = .error f ∧
      (p.compileSteps { config with dialect := .postgreSql }).value = .error g) ∨
    ∃ t u, (p.compileSteps { config with dialect := .bigQuery }).value = .ok t ∧
      (p.compileSteps { config with dialect := .postgreSql }).value = .ok u ∧
      firstRejectedStep t.contents = firstRejectedStep u.contents ∧
      List.Forall₂ Derived.Alike t.contents u.contents := by
  have source (d : Dialect) : p.tableSource { config with dialect := d } =
      .ok (p.tableOf project dataset) := tableSource_of_some hp hd
  have base (d : Dialect) : (∃ r, (p.baseRelation { config with dialect := d }).value = .ok r) ↔
      (p.tableOf project dataset).fault d = none := exists_baseRelation_iff hp hd
  have both : (∃ t, (p.compileSteps { config with dialect := .bigQuery }).value = .ok t) ↔
      ∃ u, (p.compileSteps { config with dialect := .postgreSql }).value = .ok u := by
    rw [exists_ok_iff, exists_ok_iff, base, base, h.fault_eq_none_iff given]
  have fails {x : Except PlanFault Store} (hx : ¬∃ t, x = .ok t) : ∃ f, x = .error f := by
    cases x with
    | ok t => exact absurd ⟨t, rfl⟩ hx
    | error f => exact ⟨f, rfl⟩
  by_cases succeeds : ∃ t, (p.compileSteps { config with dialect := .bigQuery }).value = .ok t
  · obtain ⟨t, ht⟩ := succeeds
    obtain ⟨u, hu⟩ := both.1 ⟨t, ht⟩
    obtain ⟨r, hr, -, rfl⟩ := run_of_ok ht
    obtain ⟨q, hq, -, rfl⟩ := run_of_ok hu
    obtain ⟨s, hs, hr⟩ := value_baseRelation_eq_ok_iff.1 hr
    obtain ⟨s', hs', hq⟩ := value_baseRelation_eq_ok_iff.1 hq
    cases (source .bigQuery).symm.trans hs
    cases (source .postgreSql).symm.trans hs'
    have alike := h.alike_contents (inStep_base (fun c hc => List.mem_append_left _ hc) hr hq)
    exact Or.inr ⟨_, _, ht, hu, firstRejectedStep_of_alike alike, alike⟩
  · obtain ⟨f, hf⟩ := fails succeeds
    obtain ⟨g, hg⟩ := fails (mt both.2 succeeds)
    exact Or.inl ⟨f, g, hf, hg⟩

/-- A plan with a name outside of ASCII, quoted text and a step that both dialects reject. -/
def portablePlan : Plan where
  source := { project := some "p", dataset := none, table := "t", name := "ds", columns := ["id", "Name"] }
  steps := [.setColumn "größe" (.sql "CASE WHEN id > 0 THEN 'a;b' END"), .dropColumn "Name",
    .filter (.sql "id = 1; DROP TABLE x"), .select [⟨"id", .column "größe"⟩]]

theorem compileSteps_agree_on_portable_rejected :
    ∃ t u, portablePlan.Portable ∧
      (portablePlan.compileSteps ⟨.bigQuery, none, some "d"⟩).value = .ok t ∧
      (portablePlan.compileSteps ⟨.postgreSql, none, some "d"⟩).value = .ok u ∧
      firstRejectedStep t.contents = some 2 ∧ firstRejectedStep u.contents = some 2 ∧
      List.Forall₂ Derived.Alike t.contents u.contents := by
  have shared {texts : List String} (h : (texts.all fun text => text.toList.all fun c =>
      decide (Fragment.Shared c)) = true) : ∀ text ∈ texts, ∀ c ∈ text.toList, Fragment.Shared c := by
    simpa only [List.all_eq_true, decide_eq_true_eq] using h
  have portable : portablePlan.Portable :=
    ⟨shared (by decide +kernel), by decide +kernel, by decide +kernel⟩
  have rejected : ((portablePlan.compileSteps ⟨.bigQuery, none, some "d"⟩).value.toOption.bind
      fun t => firstRejectedStep t.contents) = some 2 := by
    decide +kernel
  rcases compileSteps_agree_on_portable portablePlan ⟨.postgreSql, none, some "d"⟩ rfl
      (by decide +kernel) rfl portable
    with ⟨f, g, hf, -⟩ | ⟨t, u, ht, hu, same, alike⟩
  · rw [hf] at rejected
    cases rejected
  · rw [ht] at rejected
    exact ⟨t, u, portable, ht, hu, rejected, same ▸ rejected, alike⟩

end Plan

end LayeredSql
