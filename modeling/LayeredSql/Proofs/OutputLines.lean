import LayeredSql.Proofs.ControlCharacters
import LayeredSql.Proofs.PlanViews

/-!
# Output by lines

The list of relations and the list of quoted names are written for readers that go by lines and tabs.
Numbers, operations, columns and reasons of rejections hold neither, but the statement of a relation
stands in its line as it is, and so does a name that is not legal. So the output can be read back
exactly as long as no line feed stands there.
-/

namespace LayeredSql

namespace Text

/-- The lines of a text, without the line feeds that end them. Text behind the last line feed is a
line unless it is empty. -/
def lines : List Char → List (List Char)
  | [] => []
  | c :: cs =>
    if c = '\n' then [] :: lines cs
    else
      match lines cs with
      | [] => [[c]]
      | line :: rest => (c :: line) :: rest

/-- The parts of a text between the first `n` separators. What stands behind them is not cut. -/
def cutAt (separator : Char) : Nat → List Char → List (List Char)
  | 0, cs => [cs]
  | n + 1, cs =>
    match cs.dropWhile (· != separator) with
    | [] => [cs]
    | _ :: rest => cs.takeWhile (· != separator) :: cutAt separator n rest

theorem lines_cons_of_ne {c : Char} {cs line : List Char} {rest : List (List Char)} (hc : c ≠ '\n')
    (h : lines cs = line :: rest) : lines (c :: cs) = (c :: line) :: rest := by
  rw [lines, if_neg hc, h]

theorem lines_append_feed {line : List Char} (h : '\n' ∉ line) (rest : List Char) :
    lines (line ++ '\n' :: rest) = line :: lines rest := by
  induction line with
  | nil => rw [List.nil_append, lines, if_pos rfl]
  | cons c cs ih =>
    rw [List.mem_cons, not_or] at h
    exact lines_cons_of_ne (Ne.symm h.1) (ih h.2)

/-- Each line feed ends a line. -/
theorem length_lines_append_feed (text rest : List Char) :
    (lines (text ++ '\n' :: rest)).length = text.count '\n' + 1 + (lines rest).length := by
  induction text with
  | nil =>
    rw [lines_append_feed (by simp), List.length_cons, List.count_nil]
    omega
  | cons c cs ih =>
    by_cases hc : c = '\n'
    · rw [List.cons_append, lines, if_pos hc, List.length_cons, ih, hc, List.count_cons_self]
      omega
    · have some : ∃ line more, lines (cs ++ '\n' :: rest) = line :: more := by
        cases hl : lines (cs ++ '\n' :: rest) with
        | nil =>
          rw [hl, List.length_nil] at ih
          omega
        | cons line more => exact ⟨line, more, rfl⟩
      obtain ⟨line, more, hl⟩ := some
      rw [List.cons_append, lines_cons_of_ne hc hl, List.count_cons_of_ne hc, ← ih, hl,
        List.length_cons, List.length_cons]

/-- The rows of a table, each ended by a line feed. -/
def ofRows (rows : List (List Char)) : List Char := rows.flatMap (· ++ ['\n'])

theorem ofRows_cons (row : List Char) (rows : List (List Char)) :
    ofRows (row :: rows) = row ++ '\n' :: ofRows rows := by
  simp [ofRows]

theorem lines_ofRows {rows : List (List Char)} (h : ∀ row ∈ rows, '\n' ∉ row) :
    lines (ofRows rows) = rows := by
  induction rows with
  | nil => rfl
  | cons row rest ih =>
    rw [List.forall_mem_cons] at h
    rw [ofRows_cons, lines_append_feed h.1, ih h.2]

theorem length_le_length_lines_ofRows (rows : List (List Char)) :
    rows.length ≤ (lines (ofRows rows)).length := by
  induction rows with
  | nil => exact Nat.zero_le _
  | cons row rest ih =>
    rw [ofRows_cons, length_lines_append_feed, List.length_cons]
    omega

/-- There are as many lines as rows only if no row holds a line feed of its own. -/
theorem feed_not_mem_of_length {rows : List (List Char)}
    (h : (lines (ofRows rows)).length = rows.length) : ∀ row ∈ rows, '\n' ∉ row := by
  induction rows with
  | nil => simp
  | cons row rest ih =>
    have least := length_le_length_lines_ofRows rest
    rw [ofRows_cons, length_lines_append_feed, List.length_cons] at h
    rw [List.forall_mem_cons]
    exact ⟨List.count_eq_zero.1 (by omega), ih (by omega)⟩

section CutAt

variable {separator : Char} {front : List Char}

theorem cutAt_of_not_mem (h : separator ∉ front) (n : Nat) : cutAt separator n front = [front] := by
  cases n with
  | zero => rfl
  | succ n =>
    have none : front.dropWhile (· != separator) = [] := by
      rw [List.dropWhile_eq_nil_iff]
      intro x hx
      exact bne_iff_ne.2 fun eq => h (eq ▸ hx)
    rw [cutAt, none]

theorem cutAt_append (h : separator ∉ front) (n : Nat) (rest : List Char) :
    cutAt separator (n + 1) (front ++ separator :: rest) = front :: cutAt separator n rest := by
  have all : ∀ x ∈ front, (x != separator) = true := fun x hx => bne_iff_ne.2 fun eq => h (eq ▸ hx)
  have drop : (front ++ separator :: rest).dropWhile (· != separator) = separator :: rest := by
    rw [List.dropWhile_append_of_pos all, List.dropWhile_cons_of_neg (by simp)]
  have take : (front ++ separator :: rest).takeWhile (· != separator) = front := by
    rw [List.takeWhile_append_of_pos all, List.takeWhile_cons_of_neg (by simp), List.append_nil]
  rw [cutAt, drop, take]

end CutAt

end Text

namespace Command

open Text

theorem isControl_feed : isControl '\n' = true := by decide

theorem isControl_tab : isControl '\t' = true := by decide

/-! ### The list of relations -/

/-- What the line of a relation holds, part by part. -/
def entryParts (index : Nat) : Derived → List String
  | .ok r => [toString index, r.operation.name, "[" ++ ", ".intercalate r.columns ++ "]", r.sql]
  | .error e => [toString index, "invalid", e.message]

/-- The text has one line for each relation in order, and the line cut at its first three tabs gives
what it holds. -/
def ListsRelations (relations : List Derived) (text : String) : Prop :=
  (lines text.toList).map (cutAt '\t' 3) =
    relations.zipIdx.map fun entry => (entryParts entry.2 entry.1).map String.toList

instance (relations : List Derived) (text : String) : Decidable (ListsRelations relations text) :=
  inferInstanceAs (Decidable (_ = _))

def entryRow (index : Nat) (x : Derived) : String := "\t".intercalate (entryParts index x)

theorem lineageLine_eq (index : Nat) (x : Derived) :
    lineageLine index x = entryRow index x ++ "\n" := by
  have tab : "\t".toList = ['\t'] := rfl
  apply String.toList_inj.1
  cases x with
  | ok r => simp [lineageLine, entryRow, entryParts, tab]
  | error e => simp [lineageLine, entryRow, entryParts, tab]

theorem toList_lineageOutput (relations : List Derived) :
    (lineageOutput relations).text.toList =
      ofRows (relations.zipIdx.map fun entry => (entryRow entry.2 entry.1).toList) := by
  have feed : "\n".toList = ['\n'] := rfl
  simp only [lineageOutput, String.toList_join, lineageLine_eq, ofRows, List.flatMap_map,
    String.toList_append, feed]

section Parts

variable {c : Char}

theorem lacks_name (hc : isControl c = true) (kind : OperationKind) : Lacks c kind.name := by
  cases kind <;> exact lacks_of_printable hc _ (by decide)

theorem lacks_message (hc : isControl c = true) (e : Rejection) : Lacks c e.message := by
  cases e with
  | unsupportedExpression => exact lacks_of_printable hc _ (by decide)
  | invalidDefinition kind => cases kind <;> exact lacks_of_printable hc _ (by decide)

theorem lacks_bracketed (hc : isControl c = true) {d : Dialect} (columns : List String)
    (h : ∀ column ∈ columns, d.isLegal column = true) :
    Lacks c ("[" ++ ", ".intercalate columns ++ "]") := by
  have opening : Lacks c "[" := lacks_of_printable hc _ (by decide)
  have closing : Lacks c "]" := lacks_of_printable hc _ (by decide)
  have comma : Lacks c ", " := lacks_of_printable hc _ (by decide)
  rw [lacks_append_iff, lacks_append_iff, lacks_intercalate_iff comma]
  exact ⟨⟨opening, fun column hm => lacks_of_isLegal hc (h column hm)⟩, closing⟩

end Parts

/-- The columns of a relation are legal names. -/
def HasLegalColumns (x : Derived) : Prop :=
  ∃ d : Dialect, ∀ column ∈ x.columns, d.isLegal column = true

theorem cutAt_entryRow {x : Derived} (h : HasLegalColumns x) (index : Nat) :
    cutAt '\t' 3 (entryRow index x).toList = (entryParts index x).map String.toList := by
  obtain ⟨d, legal⟩ := h
  have tab : "\t".toList = ['\t'] := rfl
  have number : Lacks '\t' (toString index) := lacks_toString isControl_tab index
  cases x with
  | ok r =>
    have row : (entryRow index (.ok r)).toList = (toString index).toList ++ '\t' ::
        (r.operation.name.toList ++ '\t' :: (("[" ++ ", ".intercalate r.columns ++ "]").toList ++
          '\t' :: r.sql.toList)) := by
      simp [entryRow, entryParts, tab]
    rw [row, cutAt_append number, cutAt_append (lacks_name isControl_tab r.operation),
      cutAt_append (lacks_bracketed isControl_tab r.columns legal)]
    rfl
  | error e =>
    have row : (entryRow index (.error e)).toList =
        (toString index).toList ++ '\t' :: ("invalid".toList ++ '\t' :: e.message.toList) := by
      simp [entryRow, entryParts, tab]
    rw [row, cutAt_append number, cutAt_append (by decide),
      cutAt_of_not_mem (lacks_message isControl_tab e)]
    rfl

theorem lacks_entryRow_iff {x : Derived} (h : HasLegalColumns x) (index : Nat) :
    Lacks '\n' (entryRow index x) ↔ ∀ r, x = .ok r → Lacks '\n' r.sql := by
  obtain ⟨d, legal⟩ := h
  have number := lacks_toString isControl_feed index
  have tab : Lacks '\n' "\t" := by decide
  rw [entryRow, lacks_intercalate_iff tab]
  cases x with
  | ok r =>
    have name := lacks_name isControl_feed r.operation
    have columns := lacks_bracketed isControl_feed r.columns legal
    simp only [entryParts, List.forall_mem_cons, number, name, columns, true_and, List.not_mem_nil,
      IsEmpty.forall_iff, implies_true, and_true, Except.ok.injEq, forall_eq']
  | error e =>
    have invalid : Lacks '\n' "invalid" := by decide
    have message := lacks_message isControl_feed e
    simp only [entryParts, List.forall_mem_cons, number, invalid, message, true_and, List.not_mem_nil,
      IsEmpty.forall_iff, implies_true, reduceCtorEq]

theorem listsRelations_iff {relations : List Derived} (h : ∀ x ∈ relations, HasLegalColumns x) :
    ListsRelations relations (lineageOutput relations).text ↔
      ∀ r, .ok r ∈ relations → Lacks '\n' r.sql := by
  have members {x : Derived} {index : Nat} (hm : (x, index) ∈ relations.zipIdx) : x ∈ relations :=
    List.fst_mem_of_mem_zipIdx hm
  rw [ListsRelations, toList_lineageOutput]
  constructor
  · intro same r hr
    have count := congrArg List.length same
    rw [List.length_map, List.length_map] at count
    have clean := feed_not_mem_of_length (count.trans (List.length_map _).symm)
    obtain ⟨index, hi⟩ := List.mem_iff_getElem?.1 hr
    have place : ((.ok r : Derived), index) ∈ relations.zipIdx := List.mem_zipIdx_iff_getElem?.2 hi
    have row := clean _ (List.mem_map_of_mem place)
    exact (lacks_entryRow_iff (h _ hr) index).1 row r rfl
  · intro clean
    have rows : ∀ row ∈ relations.zipIdx.map fun entry => (entryRow entry.2 entry.1).toList,
        '\n' ∉ row := by
      rw [List.forall_mem_map]
      rintro ⟨x, index⟩ hm
      exact (lacks_entryRow_iff (h x (members hm)) index).2 fun r hr => clean r (hr ▸ members hm)
    rw [lines_ofRows rows, List.map_map]
    refine List.map_congr_left ?_
    rintro ⟨x, index⟩ hm
    exact cutAt_entryRow (h x (members hm)) index

/-! ### The list of names -/

/-- The line of a name: the name as it stands in a statement, or the marked name. -/
def nameRow (d : Dialect) (name : String) : List Char :=
  if d.isLegal name then (d.quote name).toList else '!' :: name.toList

/-- The line is that of the name, and the mark in front says that the name is illegal. -/
def NameOnLine (d : Dialect) (name : String) (line : List Char) : Prop :=
  line = nameRow d name ∧ (line.head? = some '!' ↔ d.isLegal name = false)

instance (d : Dialect) (name : String) (line : List Char) : Decidable (NameOnLine d name line) :=
  inferInstanceAs (Decidable (_ ∧ _))

/-- The text has one line for each name in order. -/
def ListsNames (d : Dialect) (names : List String) (text : String) : Prop :=
  List.Forall₂ (NameOnLine d) names (lines text.toList)

instance (d : Dialect) (names : List String) (text : String) : Decidable (ListsNames d names text) :=
  inferInstanceAs (Decidable (List.Forall₂ _ _ _))

theorem toList_quoteOutput (d : Dialect) (names : List String) :
    (quoteOutput d names).text.toList = ofRows (names.map (nameRow d)) := by
  have line (name : String) : (quoteLine d name).toList = nameRow d name ++ ['\n'] := by
    unfold quoteLine nameRow
    split <;> simp
  simp only [quoteOutput, String.toList_join, ofRows, List.flatMap_map, line]

/-- A name that starts with the mark is not written bare. -/
theorem head?_quote_ne_mark (d : Dialect) (name : String) :
    (d.quote name).toList.head? ≠ some '!' := by
  unfold Dialect.quote
  split
  · rw [Fragment.toList_forceQuote, List.head?_cons]
    cases d <;> decide
  · rename_i bare
    simp only [Dialect.needsQuoting, Bool.or_eq_true, Bool.not_eq_true', not_or,
      Bool.not_eq_false] at bare
    intro mark
    cases hn : name.toList with
    | nil =>
      rw [hn] at mark
      cases mark
    | cons c rest =>
      rw [hn] at mark
      cases Option.some.inj mark
      rw [hn, Dialect.isPlainWord, Bool.and_eq_true] at bare
      cases d <;> exact absurd bare.1.1 (by decide)

theorem nameOnLine_nameRow (d : Dialect) (name : String) : NameOnLine d name (nameRow d name) := by
  refine ⟨rfl, ?_⟩
  unfold nameRow
  split
  · rename_i legal
    exact iff_of_false (head?_quote_ne_mark d name) (by simp [legal])
  · rename_i illegal
    exact iff_of_true rfl (Bool.eq_false_iff.2 illegal)

theorem lacks_nameRow_iff (d : Dialect) (name : String) :
    '\n' ∉ nameRow d name ↔ (d.isLegal name = false → Lacks '\n' name) := by
  unfold nameRow
  split
  · rename_i legal
    exact iff_of_true (lacks_quote_of_isLegal isControl_feed legal) (by simp [legal])
  · rename_i illegal
    have feed : '\n' ≠ '!' := by decide
    simp [illegal, Lacks, feed]

theorem listsNames_iff (d : Dialect) (names : List String) :
    ListsNames d names (quoteOutput d names).text ↔
      ∀ name ∈ names, d.isLegal name = false → Lacks '\n' name := by
  rw [ListsNames, toList_quoteOutput]
  constructor
  · intro all name hm
    have count := all.length_eq
    have clean := feed_not_mem_of_length (count.symm.trans (List.length_map _).symm)
    exact (lacks_nameRow_iff d name).1 (clean _ (List.mem_map_of_mem hm))
  · intro clean
    have rows : ∀ row ∈ names.map (nameRow d), '\n' ∉ row := by
      rw [List.forall_mem_map]
      exact fun name hm => (lacks_nameRow_iff d name).2 (clean name hm)
    rw [lines_ofRows rows, List.forall₂_map_right_iff, List.forall₂_same]
    exact fun name _ => nameOnLine_nameRow d name

end Command

/-! ### Plans -/

theorem Step.lacks_expressions_iff {c : Char} (hc : Text.isControl c = true) {d : Dialect}
    {step : Step} (h : ¬step.RefusedBy d) :
    (∀ e ∈ (step.operation d).expressions, Lacks c e.text) ↔
      ∀ text, Term.sql text ∈ step.terms → Lacks c (Text.trim text) := by
  have terms := ((not_refusedBy_iff d step).1 h).1
  rw [expressions_operation, List.forall_mem_map]
  constructor
  · intro all text hm
    exact (Term.lacks_expr_iff hc (terms _ hm)).1 (all _ hm) text rfl
  · intro all t ht
    refine (Term.lacks_expr_iff hc (terms t ht)).2 ?_
    rintro text rfl
    exact all text ht

namespace Plan

/-- No line feed stands in the name of the table, and none between the ends of a fragment in the steps
before the first that is refused. -/
def KeepsToLines (p : Plan) (config : Config) : Prop :=
  (∀ source, p.tableSource config = .ok source →
    (config.dialect.usesProject = true → Lacks '\n' source.project) ∧
      Lacks '\n' source.dataset ∧ Lacks '\n' source.table) ∧
  ∀ n, (∀ step ∈ p.steps.take n, ¬step.RefusedBy config.dialect) →
    ∀ step ∈ p.steps.take n, ∀ text, .sql text ∈ step.terms → Lacks '\n' (Text.trim text)

section Contents

variable {p : Plan} {config : Config} {t : Store} {source : TableSource}

/-- The relations of a plan are what its front parts reach. -/
theorem ok_mem_contents_iff (h : (p.compileSteps config).value = .ok t)
    (hs : p.tableSource config = .ok source) (r : Relation) :
    .ok r ∈ t.contents ↔
      ∃ n, Relation.Reached config.dialect source
        ((p.steps.take n).map (Step.operation config.dialect)) r := by
  obtain ⟨base, hb, -, rfl⟩ := run_of_ok h
  obtain ⟨source', hs', table⟩ := value_baseRelation_eq_ok_iff.1 hb
  cases Except.ok.inj (hs.symm.trans hs')
  rw [Store.contents_deriveAll (content?_start base) (slots_start base), List.mem_map]
  constructor
  · rintro ⟨n, -, hr⟩
    rw [← List.map_take] at hr
    exact ⟨n, base, table, hr⟩
  · rintro ⟨n, base', table', hr⟩
    cases Except.ok.inj (table.symm.trans table')
    refine ⟨min n p.steps.length, ?_, ?_⟩
    · rw [List.mem_range, List.length_map]
      omega
    · rw [← List.map_take, ← List.take_eq_take_min]
      exact hr

theorem hasLegalColumns_of_mem (h : (p.compileSteps config).value = .ok t) :
    ∀ x ∈ t.contents, Command.HasLegalColumns x := by
  obtain ⟨base, hb, -, -⟩ := run_of_ok h
  obtain ⟨source, hs, -⟩ := value_baseRelation_eq_ok_iff.1 hb
  intro x hx
  cases x with
  | error e => exact ⟨default, by simp [Derived.columns]⟩
  | ok r =>
    obtain ⟨n, reached⟩ := (ok_mem_contents_iff h hs r).1 hx
    exact ⟨r.dialect, ((Dialect.acceptsColumns_iff _ _).1 reached.acceptsColumns).1⟩

theorem keepsToLines_iff (h : (p.compileSteps config).value = .ok t) :
    p.KeepsToLines config ↔ ∀ r, .ok r ∈ t.contents → Lacks '\n' r.sql := by
  obtain ⟨base, hb, -, -⟩ := run_of_ok h
  obtain ⟨source, hs, table⟩ := value_baseRelation_eq_ok_iff.1 hb
  have feed := Command.isControl_feed
  have fault := ((Relation.ofTable_eq_ok_iff _ _ _).1 table).1
  have acceptable (n : Nat) :
      (∀ op ∈ (p.steps.take n).map (Step.operation config.dialect),
        op.acceptable config.dialect = true) ↔
      ∀ step ∈ p.steps.take n, ¬step.RefusedBy config.dialect := by
    simp only [List.forall_mem_map, Step.acceptable_operation_iff]
  have expressions {n : Nat} (fine : ∀ step ∈ p.steps.take n, ¬step.RefusedBy config.dialect) :
      (∀ op ∈ (p.steps.take n).map (Step.operation config.dialect), ∀ e ∈ op.expressions,
        Lacks '\n' e.text) ↔
      ∀ step ∈ p.steps.take n, ∀ text, .sql text ∈ step.terms → Lacks '\n' (Text.trim text) := by
    rw [List.forall_mem_map]
    exact forall₂_congr fun step hm => Step.lacks_expressions_iff feed (fine step hm)
  constructor
  · rintro ⟨names, fragments⟩ r hr
    obtain ⟨n, reached⟩ := (ok_mem_contents_iff h hs r).1 hr
    have fine := (acceptable n).1 reached.acceptable
    rw [reached.lacks_sql_iff feed, lacks_reference_iff feed]
    exact ⟨names source hs, (expressions fine).2 (fragments n fine)⟩
  · intro clean
    constructor
    · intro source' hs'
      cases Except.ok.inj (hs.symm.trans hs')
      have first : Except.ok base ∈ t.contents :=
        (ok_mem_contents_iff h hs base).2 ⟨0, base, table, rfl⟩
      exact (lacks_reference_iff feed _ _).1
        ((Relation.lacks_sql_ofTable_iff feed table).1 (clean base first))
    · intro n fine
      obtain ⟨r, reached⟩ := Relation.Reached.exists_of_acceptable fault ((acceptable n).2 fine)
      have sql := clean r ((ok_mem_contents_iff h hs r).2 ⟨n, reached⟩)
      exact (expressions fine).1 ((reached.lacks_sql_iff feed).1 sql).2

end Contents

end Plan

namespace Command

/-! ### Runs -/

theorem standardOutput_lineage {world : World} {words : List String} {target : Target}
    {config : Config} {plan : Plan} {t : Store}
    (hw : parse world.environment words = .ok (.lineage target))
    (hl : target.load world = .ok (config, plan)) (ht : (plan.compileSteps config).value = .ok t) :
    standardOutput (run world words) = (lineageOutput t.contents).text := by
  simp only [run, hw, answer, Target.compile_of_ok hl ht, bind, Except.bind]
  rfl

theorem standardOutput_quote {world : World} {words names : List String} {d : Dialect}
    (hw : parse world.environment words = .ok (.quote d names)) :
    standardOutput (run world words) = (quoteOutput d names).text := by
  simp only [run, hw, answer]
  rfl

/-- The list of the relations of a plan can be read back exactly if the plan brings no line feed into a
statement, and the list of quoted names exactly if no illegal name holds one. -/
theorem output_reads_back_iff (world : World) (words : List String) :
    (∀ target config plan t, parse world.environment words = .ok (.lineage target) →
      target.load world = .ok (config, plan) → (plan.compileSteps config).value = .ok t →
      (ListsRelations t.contents (standardOutput (run world words)) ↔ plan.KeepsToLines config)) ∧
    ∀ d names, parse world.environment words = .ok (.quote d names) →
      (ListsNames d names (standardOutput (run world words)) ↔
        ∀ name ∈ names, d.isLegal name = false → Lacks '\n' name) := by
  constructor
  · intro target config plan t hw hl ht
    rw [standardOutput_lineage hw hl ht, listsRelations_iff (Plan.hasLegalColumns_of_mem ht),
      Plan.keepsToLines_iff ht]
  · intro d names hw
    rw [standardOutput_quote hw, listsNames_iff]

/-- Tabs in a fragment, line feeds at its ends, and a line feed in a fragment that is refused. -/
def tabbedPlan : Plan where
  source := { project := none, dataset := some "d", table := "t", name := "n", columns := ["a"] }
  steps := [.filter (.sql "\na >\t0\n"), .filter (.sql "a\n;")]

theorem output_reads_back_iff_tabs :
    ∃ t, parse (World.ofPlan tabbedPlan).environment ["lineage", "-d", "postgres", "p.json"] =
        .ok (.lineage ⟨"p.json", none, some .postgreSql⟩) ∧
      Target.load ⟨"p.json", none, some .postgreSql⟩ (.ofPlan tabbedPlan) =
        .ok (⟨.postgreSql, none, none⟩, tabbedPlan) ∧
      (tabbedPlan.compileSteps ⟨.postgreSql, none, none⟩).value = .ok t ∧
      tabbedPlan.KeepsToLines ⟨.postgreSql, none, none⟩ ∧
      ListsNames .postgreSql ["a\tb", "!c"]
        (standardOutput (run (.ofPlan tabbedPlan) ["quote", "-d", "pg", "a\tb", "!c"])) := by
  have named := parse_ofPlan tabbedPlan
  have loaded := load_ofPlan tabbedPlan
  have listed : (tabbedPlan.compileSteps ⟨.postgreSql, none, none⟩).value.toOption.map (fun t =>
      decide (ListsRelations t.contents (lineageOutput t.contents).text)) = some true := by
    decide +kernel
  obtain ⟨t, value, lists⟩ := Option.map_eq_some_iff.1 listed
  have compiled := Plan.eq_ok_of_toOption value
  have reads : ListsRelations t.contents
      (standardOutput (run (.ofPlan tabbedPlan) ["lineage", "-d", "postgres", "p.json"])) := by
    rw [standardOutput_lineage named loaded compiled]
    exact of_decide_eq_true lists
  have keeps := ((output_reads_back_iff (.ofPlan tabbedPlan)
    ["lineage", "-d", "postgres", "p.json"]).1 _ _ _ _ named loaded compiled).1 reads
  have quoted : parse (World.ofPlan tabbedPlan).environment ["quote", "-d", "pg", "a\tb", "!c"] =
      .ok (.quote .postgreSql ["a\tb", "!c"]) := by
    decide +kernel
  have names := ((output_reads_back_iff (.ofPlan tabbedPlan)
    ["quote", "-d", "pg", "a\tb", "!c"]).2 _ _ quoted).2 (by decide +kernel)
  exact ⟨t, named, loaded, compiled, keeps, names⟩

/-- A fragment with a line feed, which is accepted and makes two lines of one relation. -/
def feedPlan : Plan where
  source := { project := none, dataset := some "d", table := "t", name := "n", columns := ["a"] }
  steps := [.filter (.sql "a >\n0")]

/-- An illegal name with a line feed makes two lines as well. -/
theorem output_fails_to_read_back_at_feed :
    ∃ t, parse (World.ofPlan feedPlan).environment ["lineage", "-d", "postgres", "p.json"] =
        .ok (.lineage ⟨"p.json", none, some .postgreSql⟩) ∧
      Target.load ⟨"p.json", none, some .postgreSql⟩ (.ofPlan feedPlan) =
        .ok (⟨.postgreSql, none, none⟩, feedPlan) ∧
      (feedPlan.compileSteps ⟨.postgreSql, none, none⟩).value = .ok t ∧
      ¬ListsRelations t.contents
        (standardOutput (run (.ofPlan feedPlan) ["lineage", "-d", "postgres", "p.json"])) ∧
      parse (World.ofPlan feedPlan).environment ["quote", "a\nb"] =
        .ok (.quote .bigQuery ["a\nb"]) ∧
      ¬ListsNames .bigQuery ["a\nb"]
        (standardOutput (run (.ofPlan feedPlan) ["quote", "a\nb"])) := by
  have named := parse_ofPlan feedPlan
  have loaded := load_ofPlan feedPlan
  have counted : (feedPlan.compileSteps ⟨.postgreSql, none, none⟩).value.toOption.map (fun t =>
      (t.contents.length, (Text.lines (lineageOutput t.contents).text.toList).length)) =
        some (2, 3) := by
    decide +kernel
  obtain ⟨t, value, counts⟩ := Option.map_eq_some_iff.1 counted
  obtain ⟨two, three⟩ := Prod.mk.inj counts
  have compiled := Plan.eq_ok_of_toOption value
  refine ⟨t, named, loaded, compiled, ?_, by decide +kernel, by decide +kernel⟩
  rw [standardOutput_lineage named loaded compiled]
  intro same
  have count := congrArg List.length same
  rw [List.length_map, List.length_map, List.length_zipIdx, two, three] at count
  cases count

end Command

end LayeredSql
