import LayeredSql.Proofs.Columns
import LayeredSql.Proofs.Layers

/-!
# Meaning of column chains

A chain that sets, drops and selects columns by reference only is a program on ordered records, and its
statement is another one: each layer of the statement makes a record out of the record of the layer
below by looking columns up. The two do the same to every row of the base. Columns that a step does not
touch are written into the new layer under their own names, and since no two columns of a relation are
the same, each of them is found again.
-/

namespace LayeredSql

universe u

namespace Item

/-- A column under its own name. -/
def same (column : String) : Item := ⟨column, column⟩

/-- The entry of a select list that refers to the column. -/
def entry (d : Dialect) (item : Item) : String × Expr := (item.label, .ofColumn d item.source)

theorem map_entry_same (d : Dialect) (columns : List String) :
    (columns.map same).map (entry d) = columns.map (Relation.reference d) := by
  rw [List.map_map]
  rfl

theorem selectItems_entry {d : Dialect} {items : List Item}
    (h : ∀ item ∈ items, d.isLegal item.source = true) :
    Query.selectItems ((items.map (entry d)).map (Query.entryItem d)) =
      Query.selectItems (items.map (text d)) := by
  rw [List.map_map]
  refine congrArg Query.selectItems (List.map_congr_left fun item hi => ?_)
  show Query.aliased d (Expr.ofColumn d item.source).text item.label = item.text d
  rw [(Expr.ofColumn_of_isLegal (h item hi)).1]
  rfl

end Item

/-! ### Records -/

/-- Fields in order, each with its value. -/
abbrev Row (V : Type u) := List (String × V)

namespace Row

variable {V : Type u}

def fields (row : Row V) : List String := row.map Prod.fst

/-- The value of the first field that the name means. -/
def value? (d : Dialect) (row : Row V) (name : String) : Option V :=
  (row.find? fun field => d.sameColumn field.1 name).map Prod.snd

/-- The record that the items of a select list make. -/
def project (d : Dialect) (row : Row V) : List Item → Option (Row V)
  | [] => some []
  | item :: items => do
    let value ← row.value? d item.source
    let rest ← project d row items
    return (item.label, value) :: rest

/-- Overwrites the matching field in place, under the new spelling of its name, or adds one. -/
def put (d : Dialect) (name : String) (value : V) : Row V → Row V
  | [] => [(name, value)]
  | field :: rest =>
    if d.sameColumn field.1 name then (name, value) :: rest else field :: put d name value rest

/-- Deletes the matching field. -/
def remove (d : Dialect) (name : String) (row : Row V) : Row V :=
  row.eraseP fun field => d.sameColumn field.1 name

/-- No two fields are the same column. -/
def Distinct (d : Dialect) (row : Row V) : Prop :=
  row.Pairwise fun a b => d.columnKey a.1 ≠ d.columnKey b.1

theorem distinct_of_fields {d : Dialect} {row : Row V} {columns : List String}
    (h : d.acceptsColumns columns = true) (hf : row.fields = columns) : row.Distinct d := by
  obtain ⟨-, distinct⟩ := (Dialect.acceptsColumns_iff d columns).1 h
  rw [← hf, fields, List.pairwise_map] at distinct
  exact distinct

theorem value?_of_mem {d : Dialect} {row : Row V} (h : row.Distinct d) {field : String × V}
    (hf : field ∈ row) : row.value? d field.1 = some field.2 := by
  have found : (row.find? fun other => d.sameColumn other.1 field.1) = some field := by
    induction row with
    | nil => cases hf
    | cons first rest ih =>
      obtain ⟨apart, later⟩ := List.pairwise_cons.1 h
      rcases List.mem_cons.1 hf with same | member
      · rw [← same]
        exact List.find?_cons_of_pos ((d.sameColumn_iff _ _).2 rfl)
      · have other : ¬d.sameColumn first.1 field.1 = true := by
          rw [d.sameColumn_iff]
          exact apart field member
        rw [List.find?_cons_of_neg (by exact other)]
        exact ih later member
  rw [value?, found]
  rfl

theorem exists_value? {d : Dialect} {row : Row V} {name column : String}
    (hc : column ∈ row.fields) (hs : d.sameColumn column name = true) :
    ∃ value, row.value? d name = some value := by
  obtain ⟨field, hf, rfl⟩ := List.mem_map.1 hc
  have found : (row.find? fun other => d.sameColumn other.1 name).isSome := by
    rw [List.find?_isSome]
    exact ⟨field, hf, hs⟩
  obtain ⟨first, hfirst⟩ := Option.isSome_iff_exists.1 found
  exact ⟨first.2, by rw [value?, hfirst]; rfl⟩

/-! ### Projections -/

theorem project_cons (d : Dialect) (row : Row V) (item : Item) (items : List Item) :
    row.project d (item :: items) =
      (row.value? d item.source).bind fun value =>
        (row.project d items).map ((item.label, value) :: ·) := by
  rw [project]
  cases row.value? d item.source with
  | none => rfl
  | some value => cases row.project d items <;> rfl

theorem project_append (d : Dialect) (row : Row V) (xs ys : List Item) :
    row.project d (xs ++ ys) =
      (row.project d xs).bind fun front => (row.project d ys).map (front ++ ·) := by
  induction xs with
  | nil =>
    show row.project d ys = (row.project d ys).map id
    rw [Option.map_id, id_eq]
  | cons item xs ih =>
    rw [List.cons_append, project_cons, project_cons, ih]
    cases row.value? d item.source with
    | none => rfl
    | some value =>
      cases row.project d xs with
      | none => rfl
      | some front => cases row.project d ys <;> rfl

theorem fields_project {d : Dialect} {row out : Row V} {items : List Item}
    (h : row.project d items = some out) : out.fields = items.map Item.label := by
  induction items generalizing out with
  | nil =>
    cases h
    rfl
  | cons item items ih =>
    rw [project_cons] at h
    obtain ⟨value, -, h⟩ := Option.bind_eq_some_iff.1 h
    obtain ⟨rest, hr, rfl⟩ := Option.map_eq_some_iff.1 h
    rw [List.map_cons, ← ih hr]
    rfl

theorem exists_project {d : Dialect} {row : Row V} {items : List Item}
    (h : ∀ item ∈ items, ∃ value, row.value? d item.source = some value) :
    ∃ out, row.project d items = some out := by
  induction items with
  | nil => exact ⟨[], rfl⟩
  | cons item items ih =>
    obtain ⟨⟨value, hv⟩, others⟩ := List.forall_mem_cons.1 h
    obtain ⟨rest, hr⟩ := ih others
    exact ⟨(item.label, value) :: rest, by rw [project_cons, hv, hr]; rfl⟩

/-- Fields that are selected under their own names come out as they are. -/
theorem project_same {d : Dialect} {row : Row V} (h : row.Distinct d) {part : Row V}
    (hp : ∀ field ∈ part, field ∈ row) :
    row.project d ((fields part).map Item.same) = some part := by
  induction part with
  | nil => rfl
  | cons field part ih =>
    obtain ⟨member, others⟩ := List.forall_mem_cons.1 hp
    show row.project d (Item.same field.1 :: (fields part).map Item.same) = _
    rw [project_cons, ih others]
    show (row.value? d field.1).bind _ = _
    rw [value?_of_mem h member]
    rfl

/-! ### Changes of a record -/

theorem put_of_forall {d : Dialect} {name : String} (value : V) {row : Row V}
    (h : ∀ field ∈ row, d.sameColumn field.1 name = false) :
    row.put d name value = row ++ [(name, value)] := by
  induction row with
  | nil => rfl
  | cons field row ih =>
    obtain ⟨first, others⟩ := List.forall_mem_cons.1 h
    rw [put, if_neg (by simp [first]), ih others]
    rfl

theorem put_append {d : Dialect} {name : String} (value : V) {front back : Row V}
    {field : String × V} (h : ∀ other ∈ front, d.sameColumn other.1 name = false)
    (hf : d.sameColumn field.1 name = true) :
    (front ++ field :: back).put d name value = front ++ (name, value) :: back := by
  induction front with
  | nil => rw [List.nil_append, put, if_pos hf, List.nil_append]
  | cons other front ih =>
    obtain ⟨first, others⟩ := List.forall_mem_cons.1 h
    rw [List.cons_append, put, if_neg (by simp [first]), ih others]
    rfl

theorem project_add {d : Dialect} {row : Row V} (h : row.Distinct d) {name : String}
    (hn : ∀ field ∈ row, d.sameColumn field.1 name = false) (source : String) :
    row.project d (row.fields.map Item.same ++ [⟨source, name⟩]) =
      (row.value? d source).map fun value => row.put d name value := by
  rw [project_append, project_same h fun field hf => hf, Option.bind_some, project_cons]
  cases row.value? d source with
  | none => rfl
  | some value =>
    rw [Option.map_some, put_of_forall value hn]
    rfl

theorem project_overwrite {d : Dialect} {front back : Row V} {field : String × V}
    (h : Distinct d (front ++ field :: back)) {name : String}
    (hf : d.sameColumn field.1 name = true) (source : String) :
    project d (front ++ field :: back)
        ((fields front).map Item.same ++ ⟨source, name⟩ :: (fields back).map Item.same) =
      (value? d (front ++ field :: back) source).map fun value =>
        put d name value (front ++ field :: back) := by
  have key := (d.sameColumn_iff field.1 name).1 hf
  have before : ∀ other ∈ front, d.sameColumn other.1 name = false := by
    intro other ho
    rw [d.sameColumn_eq_false_iff, ← key]
    exact (List.pairwise_append.1 h).2.2 other ho field (by simp)
  rw [project_append, project_same h fun other ho => by simp [ho], Option.bind_some, project_cons,
    project_same h fun other ho => by simp [ho]]
  cases value? d (front ++ field :: back) source with
  | none => rfl
  | some value =>
    rw [Option.map_some, put_append value before hf]
    rfl

theorem remove_eq_filter {d : Dialect} {row : Row V} (h : row.Distinct d) (name : String) :
    row.remove d name = row.filter fun field => !d.sameColumn field.1 name := by
  induction row with
  | nil => rfl
  | cons field row ih =>
    obtain ⟨apart, later⟩ := List.pairwise_cons.1 h
    by_cases hs : d.sameColumn field.1 name = true
    · -- the others differ from this field, so they differ from the name
      have kept : (row.filter fun other => !d.sameColumn other.1 name) = row := by
        rw [List.filter_eq_self]
        intro other ho
        have key := (d.sameColumn_iff field.1 name).1 hs
        rw [Bool.not_eq_true', d.sameColumn_eq_false_iff, ← key]
        exact (apart other ho).symm
      rw [List.filter_cons_of_neg (by simp [hs]), kept]
      exact List.eraseP_cons_of_pos hs
    · rw [List.filter_cons_of_pos (by simpa using hs), ← ih later]
      exact List.eraseP_cons_of_neg hs

end Row

/-- The record that the statement makes of a row of its table. -/
def Layers.eval (d : Dialect) {V : Type u} : Layers → Row V → Option (Row V)
  | .table items _, row => row.project d items
  | .nested items inner _, row => (inner.eval d row).bind fun below => below.project d items

/-! ### Steps -/

/-- A step of a chain, with names of columns in the places of expressions. -/
inductive ColumnStep where
  | set (name source : String)
  | drop (name : String)
  | select (items : List Item)
deriving DecidableEq, Repr

namespace ColumnStep

def operation (d : Dialect) : ColumnStep → Operation
  | set name source => .setColumn name (.ofColumn d source)
  | drop name => .dropColumn name
  | select items => .select ⟨items.map (Item.entry d)⟩

/-- The columns that the step refers to. -/
def sources : ColumnStep → List String
  | set _ source => [source]
  | drop _ => []
  | select items => items.map Item.source

/-- The step on a record. -/
def perform (d : Dialect) {V : Type u} (row : Row V) : ColumnStep → Option (Row V)
  | set name source => (row.value? d source).map fun value => row.put d name value
  | drop name => some (row.remove d name)
  | select items => row.project d items

/-- The steps on a record, one after the other. -/
def performAll (d : Dialect) {V : Type u} (row : Row V) (steps : List ColumnStep) :
    Option (Row V) :=
  steps.foldl (fun here step => here.bind fun row => step.perform d row) (some row)

theorem performAll_snoc (d : Dialect) {V : Type u} (row : Row V) (steps : List ColumnStep)
    (step : ColumnStep) :
    performAll d row (steps ++ [step]) = (performAll d row steps).bind fun r => step.perform d r := by
  rw [performAll, List.foldl_append]
  rfl

end ColumnStep

namespace Relation

/-! ### One step -/

/-- The items make up the select list that the step leads to, refer to columns by legal names, and
make of every row of the relation what the step makes of it. -/
structure RendersStep (r : Relation) (step : ColumnStep) (items : List Item) : Prop where
  entries : (r.outputList (step.operation r.dialect)).entries = items.map (Item.entry r.dialect)
  legal : ∀ item ∈ items, r.dialect.isLegal item.source = true
  performs : ∀ (V : Type u) (row : Row V), row.fields = r.columns →
    row.project r.dialect items = step.perform r.dialect row

section Step

variable {r : Relation} {d : Dialect}

theorem rendersStep_add (h : r.dialect.acceptsColumns r.columns = true) {name source : String}
    (hs : r.dialect.isLegal source = true) (hn : r.column? name = none) :
    RendersStep.{u} r (.set name source) (r.columns.map Item.same ++ [⟨source, name⟩]) := by
  obtain ⟨legal, -⟩ := (Dialect.acceptsColumns_iff r.dialect r.columns).1 h
  refine ⟨?_, ?_, ?_⟩
  · rw [List.map_append, Item.map_entry_same]
    exact entries_setColumn_of_none _ h hn
  · rw [List.forall_mem_append, List.forall_mem_map, List.forall_mem_singleton]
    exact ⟨legal, hs⟩
  · intro V row hf
    have others : ∀ field ∈ row, r.dialect.sameColumn field.1 name = false := by
      intro field hm
      have member : field.1 ∈ r.columns := hf ▸ List.mem_map_of_mem hm
      exact Bool.not_eq_true _ ▸ List.find?_eq_none.1 hn field.1 member
    have distinct := Row.distinct_of_fields h hf
    rw [← hf]
    exact Row.project_add distinct others source

theorem exists_rendersStep_overwrite (h : r.dialect.acceptsColumns r.columns = true)
    {name source column : String} (hs : r.dialect.isLegal source = true)
    (hn : r.column? name = some column) : ∃ items, RendersStep.{u} r (.set name source) items := by
  obtain ⟨legal, -⟩ := (Dialect.acceptsColumns_iff r.dialect r.columns).1 h
  obtain ⟨front, back, split, key, entries⟩ :=
    entries_setColumn_of_some (.ofColumn r.dialect source) h hn
  refine ⟨front.map Item.same ++ ⟨source, name⟩ :: back.map Item.same, ?_, ?_, ?_⟩
  · rw [List.map_append, List.map_cons, Item.map_entry_same, Item.map_entry_same]
    exact entries
  · rw [split, List.forall_mem_append, List.forall_mem_cons] at legal
    rw [List.forall_mem_append, List.forall_mem_cons, List.forall_mem_map, List.forall_mem_map]
    exact ⟨legal.1, hs, legal.2.2⟩
  · intro V row hf
    have distinct := Row.distinct_of_fields h hf
    -- the row splits where its columns do
    obtain ⟨before, rest, rfl, rfl, hr⟩ := List.map_eq_append_iff.1 (hf.trans split)
    obtain ⟨field, behind, rfl, rfl, rfl⟩ := List.map_eq_cons_iff.1 hr
    exact Row.project_overwrite distinct ((r.dialect.sameColumn_iff _ _).2 key) source

theorem rendersStep_drop (h : r.dialect.acceptsColumns r.columns = true) (name : String) :
    RendersStep.{u} r (.drop name)
      ((r.columns.filter fun c => !r.dialect.sameColumn c name).map Item.same) := by
  obtain ⟨legal, -⟩ := (Dialect.acceptsColumns_iff r.dialect r.columns).1 h
  refine ⟨?_, ?_, ?_⟩
  · rw [Item.map_entry_same]
    exact entries_dropColumn name h
  · rw [List.forall_mem_map]
    exact fun column hc => legal column (List.mem_filter.1 hc).1
  · intro V row hf
    have distinct := Row.distinct_of_fields h hf
    have fields : (r.columns.filter fun c => !r.dialect.sameColumn c name) =
        Row.fields (row.filter fun field => !r.dialect.sameColumn field.1 name) := by
      rw [← hf, Row.fields, Row.fields, List.filter_map]
      rfl
    rw [fields, Row.project_same distinct fun field hm => (List.mem_filter.1 hm).1,
      ← Row.remove_eq_filter distinct]
    rfl

theorem rendersStep_select {items : List Item}
    (ha : (ColumnStep.operation r.dialect (.select items)).acceptable r.dialect = true) :
    RendersStep.{u} r (.select items) items := by
  refine ⟨rfl, ?_, fun V row hf => rfl⟩
  intro item hi
  simp only [ColumnStep.operation, Operation.acceptable, Operation.acceptableList,
    Bool.and_eq_true, List.all_eq_true] at ha
  have member : Expr.ofColumn r.dialect item.source ∈
      SelectList.expressions ⟨items.map (Item.entry r.dialect)⟩ :=
    List.mem_map_of_mem (List.mem_map_of_mem hi)
  exact (Expr.supportedBy_ofColumn_iff _ _).1 (ha.1 _ member)

theorem exists_rendersStep (h : r.dialect.acceptsColumns r.columns = true) {step : ColumnStep}
    (ha : (step.operation r.dialect).acceptable r.dialect = true) :
    ∃ items, RendersStep.{u} r step items := by
  cases step with
  | set name source =>
    simp only [ColumnStep.operation, Operation.acceptable, Bool.and_eq_true] at ha
    have legal := (Expr.supportedBy_ofColumn_iff _ _).1 ha.1
    cases hn : r.column? name with
    | none => exact ⟨_, rendersStep_add h legal hn⟩
    | some column => exact exists_rendersStep_overwrite h legal hn
  | drop name => exact ⟨_, rendersStep_drop h name⟩
  | select items => exact ⟨items, rendersStep_select ha⟩

/-- What a step makes of a row of the relation has the columns of the next relation. -/
theorem RendersStep.fields {step : ColumnStep} {items : List Item} {t : Relation}
    (hi : RendersStep.{u} r step items) (happ : r.apply (step.operation r.dialect) = .ok t)
    {V : Type u} {row out : Row V} (hf : row.fields = r.columns)
    (ho : step.perform r.dialect row = some out) : out.fields = t.columns := by
  obtain ⟨-, rfl⟩ := (apply_eq_ok_iff r _ t).1 happ
  rw [← hi.performs V row hf] at ho
  rw [Row.fields_project ho]
  show _ = (r.outputList (step.operation r.dialect)).names
  rw [SelectList.names, hi.entries, List.map_map]
  rfl

theorem RendersStep.sql {step : ColumnStep} {items : List Item} {t : Relation}
    (hi : RendersStep.{u} r step items) (happ : r.apply (step.operation r.dialect) = .ok t) :
    t.sql = Query.selectItems (items.map (Item.text r.dialect)) ++ " FROM " ++
      Query.derivedTable r.dialect r.sql r.name := by
  obtain ⟨-, rfl⟩ := (apply_eq_ok_iff r _ t).1 happ
  have layer : r.layer (step.operation r.dialect) =
      Query.selectClause r.dialect (r.outputList (step.operation r.dialect)) ++ " FROM " ++
        Query.derivedTable r.dialect r.sql r.name := by
    cases step <;> exact String.append_empty
  show r.layer (step.operation r.dialect) = _
  rw [layer, Query.selectClause, hi.entries, Item.selectItems_entry hi.legal]

theorem exists_perform {step : ColumnStep} {V : Type u} {row : Row V} (hf : row.fields = r.columns)
    (h : ∀ source ∈ step.sources, ∃ column ∈ r.columns, d.sameColumn column source = true) :
    ∃ out, step.perform d row = some out := by
  have found (source : String) (hs : source ∈ step.sources) :
      ∃ value, row.value? d source = some value := by
    obtain ⟨column, hc, same⟩ := h source hs
    rw [← hf] at hc
    exact Row.exists_value? hc same
  cases step with
  | set name source =>
    obtain ⟨value, hv⟩ := found source (by simp [ColumnStep.sources])
    exact ⟨row.put d name value, by rw [ColumnStep.perform, hv]; rfl⟩
  | drop name => exact ⟨_, rfl⟩
  | select items =>
    exact Row.exists_project fun item hi => found item.source (List.mem_map_of_mem hi)

end Step

/-! ### Chains -/

namespace Reached

variable {d : Dialect} {s : TableSource} {steps : List ColumnStep} {r : Relation}

/-- Every name that a step refers to means a column of the relation that the step is applied to. -/
def Named (d : Dialect) (s : TableSource) (steps : List ColumnStep) : Prop :=
  ∀ i : Fin steps.length, ∀ q, Reached d s ((steps.take i).map (ColumnStep.operation d)) q →
    ∀ source ∈ steps[i].sources, ∃ column ∈ q.columns, d.sameColumn column source = true

instance {ops : List Operation} (P : Relation → Prop) [DecidablePred P] :
    Decidable (∀ q, Reached d s ops q → P q) :=
  match h : ofTable d s with
  | .error _ => isTrue fun _ ⟨_, hb, _⟩ => nomatch h.symm.trans hb
  | .ok base =>
    match h' : Derived.applyAll (.ok base) ops with
    | .error _ => isTrue fun _ ⟨_, hb, hr⟩ => by
      cases h.symm.trans hb
      cases h'.symm.trans hr
    | .ok q => decidable_of_iff (P q)
      ⟨fun hq _ hr => Reached.unique ⟨base, h, h'⟩ hr ▸ hq, fun all => all q ⟨base, h, h'⟩⟩

instance (d : Dialect) (s : TableSource) (steps : List ColumnStep) : Decidable (Named d s steps) :=
  inferInstanceAs (Decidable (∀ i : Fin steps.length, ∀ q,
    Reached d s ((steps.take i).map (ColumnStep.operation d)) q →
      ∀ source ∈ steps[i].sources, ∃ column ∈ q.columns, d.sameColumn column source = true))

theorem Named.init {init : List ColumnStep} {step : ColumnStep} (h : Named d s (init ++ [step])) :
    Named d s init := by
  intro ⟨i, hi⟩ q hq
  have this := h ⟨i, by rw [List.length_append]; omega⟩ q
  simp only [Fin.getElem_fin, List.getElem_append_left hi,
    List.take_append_of_le_length (Nat.le_of_lt hi)] at this
  exact this hq

theorem Named.last {init : List ColumnStep} {step : ColumnStep} (h : Named d s (init ++ [step]))
    {q : Relation} (hq : Reached d s (init.map (ColumnStep.operation d)) q) :
    ∀ source ∈ step.sources, ∃ column ∈ q.columns, d.sameColumn column source = true := by
  have this := h ⟨init.length, by simp⟩ q
  simp only [Fin.getElem_fin, List.getElem_concat_length, List.take_left] at this
  exact this hq

/-- The layers do to a row of the table what the steps do to it, and a record that comes out has the
columns of the relation. -/
def Follows (d : Dialect) (s : TableSource) (steps : List ColumnStep) (r : Relation)
    (layers : Layers) : Prop :=
  ∀ (V : Type u) (row : Row V), row.fields = s.columns →
    layers.eval d row = ColumnStep.performAll d row steps ∧
    ∀ out, ColumnStep.performAll d row steps = some out → out.fields = r.columns

theorem exists_layers_base (h : ofTable d s = .ok r) :
    ∃ layers, Layers.Spells d r.sql layers ∧ Follows.{u} d s [] r layers := by
  obtain ⟨fault, rfl⟩ := (ofTable_eq_ok_iff d s r).1 h
  have accepted := TableSource.acceptsColumns_of_fault_eq_none fault
  have nodup := Dialect.nodup_of_acceptsColumns accepted
  obtain ⟨legal, -⟩ := (Dialect.acceptsColumns_iff d s.columns).1 accepted
  refine ⟨.table (s.columns.map Item.same) (Layers.tablePath d s.project s.dataset s.table), ?_, ?_⟩
  · have spells := Layers.spells_table (d := d) (s.columns.map Item.same) s.project s.dataset s.table
    rw [← Item.selectItems_entry (by rwa [List.forall_mem_map]), Item.map_entry_same,
      ← entries_selectColumns nodup] at spells
    exact spells
  · intro V row hf
    have distinct := Row.distinct_of_fields accepted hf
    refine ⟨?_, ?_⟩
    · show row.project d (s.columns.map Item.same) = some row
      rw [← hf]
      exact Row.project_same distinct fun field hm => hm
    · intro out ho
      cases ho
      show row.fields = (selectColumns d s.columns).names
      rw [names_selectColumns nodup]
      exact hf

/-- A step puts one layer around those that are there. -/
theorem exists_layers_step {q : Relation} {init : List ColumnStep} {step : ColumnStep}
    {inner : Layers} (hd : q.dialect = d) (hq : q.dialect.acceptsColumns q.columns = true)
    (happ : q.apply (step.operation d) = .ok r) (hs : Layers.Spells d q.sql inner)
    (hf : Follows.{u} d s init q inner) :
    ∃ layers, Layers.Spells d r.sql layers ∧ Follows.{u} d s (init ++ [step]) r layers := by
  subst hd
  obtain ⟨items, renders⟩ := exists_rendersStep.{u} hq ((apply_eq_ok_iff q _ r).1 happ).1
  refine ⟨.nested items inner q.name, ?_, ?_⟩
  · rw [renders.sql happ]
    exact Layers.spells_derivedTable hs items q.name
  · intro V row hrow
    obtain ⟨evaluated, columns⟩ := hf V row hrow
    rw [Layers.eval, evaluated, ColumnStep.performAll_snoc]
    cases hb : ColumnStep.performAll q.dialect row init with
    | none => exact ⟨rfl, nofun⟩
    | some below =>
      have fields := columns below hb
      exact ⟨renders.performs V below fields, fun out ho => renders.fields happ fields ho⟩

theorem exists_layers (h : Reached d s (steps.map (ColumnStep.operation d)) r) :
    ∃ layers, Layers.Spells d r.sql layers ∧ Follows.{u} d s steps r layers := by
  induction steps using List.reverseRecOn generalizing r with
  | nil => exact exists_layers_base (nil_iff.1 h)
  | append_singleton init step ih =>
    rw [List.map_append] at h
    obtain ⟨q, hq, happ⟩ := snoc_iff.1 h
    obtain ⟨inner, spells, follows⟩ := ih hq
    exact exists_layers_step hq.dialect_eq hq.acceptsColumns happ spells follows

/-- Where all names mean columns, no step is at a loss. -/
theorem exists_performAll (h : Reached d s (steps.map (ColumnStep.operation d)) r)
    (hn : Named d s steps) {V : Type u} {row : Row V} (hf : row.fields = s.columns) :
    ∃ out, ColumnStep.performAll d row steps = some out := by
  induction steps using List.reverseRecOn generalizing r with
  | nil => exact ⟨row, rfl⟩
  | append_singleton init step ih =>
    rw [List.map_append] at h
    obtain ⟨q, hq, -⟩ := snoc_iff.1 h
    obtain ⟨below, hb⟩ := ih hq hn.init
    obtain ⟨layers, -, follows⟩ := exists_layers.{u} hq
    have fields := (follows V row hf).2 below hb
    obtain ⟨out, ho⟩ := exists_perform fields (hn.last hq)
    exact ⟨out, by rw [ColumnStep.performAll_snoc, hb]; exact ho⟩

/-- The statement of a chain of column references, read as layers, makes of every row of the base the
record that the steps make of it, and the fields of that record are the columns of the relation. -/
theorem sql_evaluates_column_chain (h : Reached d s (steps.map (ColumnStep.operation d)) r)
    (hn : Named d s steps) :
    ∃ layers, Layers.ofText? d r.sql = some layers ∧
      ∀ (V : Type u) (row : Row V), row.fields = s.columns →
        ∃ out, layers.eval d row = some out ∧ out.fields = r.columns ∧
          ColumnStep.performAll d row steps = some out := by
  obtain ⟨layers, spells, follows⟩ := exists_layers.{u} h
  refine ⟨layers, spells.ofText?, ?_⟩
  intro V row hf
  obtain ⟨evaluated, columns⟩ := follows V row hf
  obtain ⟨out, ho⟩ := exists_performAll h hn hf
  exact ⟨out, evaluated.trans ho, columns out ho, ho⟩

/-- The names hold commas and keywords, and columns are referred to in other cases. -/
theorem sql_evaluates_column_chain_keywords :
    ∃ r layers, Reached .bigQuery ⟨"p", "d", "t", "ds", ["id", "Name", "a, b"]⟩
        (([.set "NAME" "ID", .select [⟨"A, B", "x AS y"⟩, ⟨"name", "from"⟩], .drop "X as Y"] :
          List ColumnStep).map (ColumnStep.operation .bigQuery)) r ∧
      Layers.ofText? .bigQuery r.sql = some layers ∧ r.columns = ["from"] ∧
      layers.eval .bigQuery [("id", 1), ("Name", 2), ("a, b", 3)] = some [("from", 1)] := by
  have reached : Reached .bigQuery ⟨"p", "d", "t", "ds", ["id", "Name", "a, b"]⟩
      (([.set "NAME" "ID", .select [⟨"A, B", "x AS y"⟩, ⟨"name", "from"⟩], .drop "X as Y"] :
        List ColumnStep).map (ColumnStep.operation .bigQuery))
      ⟨.bigQuery, "t", "ds", ["from"], "SELECT `from` AS `from` FROM " ++
        "(SELECT `A, B` AS `x AS y`, name AS `from` FROM " ++
        "(SELECT id AS id, ID AS NAME, `a, b` AS `a, b` FROM " ++
        "(SELECT id AS id, Name AS Name, `a, b` AS `a, b` FROM `p.d.t`) AS ds) AS ds) AS ds",
        3, .dropColumn⟩ := by
    decide +kernel
  obtain ⟨layers, read, means⟩ := sql_evaluates_column_chain reached (by decide +kernel)
  obtain ⟨out, evaluated, -, performed⟩ :=
    means Nat [("id", 1), ("Name", 2), ("a, b", 3)] rfl
  have result : out = [("from", 1)] :=
    Option.some.inj (performed.symm.trans (by decide +kernel))
  exact ⟨_, layers, reached, read, rfl, result ▸ evaluated⟩

end Reached

end Relation

end LayeredSql
