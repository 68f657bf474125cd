import LayeredSql.Proofs.SelectClause
import Mathlib.Data.List.Forall2

/-!
# The outermost select clause and the columns

The items of the outermost select clause name the columns of the relation unless a fragment of the
outermost select list brings a comma or a `FROM` of its own that stands outside quotes and
parentheses: the lexical check lets both pass. What holds of one select clause is shown first, and
then carried over to the layer that each operation puts around a statement.
-/

namespace LayeredSql

open Fragment

namespace OutputItems

/-! ### When the items name the columns -/

/-- The items are as many as the columns, and each ends in the name of its column. -/
def NamesColumns (d : Dialect) (items : List (List Char)) (columns : List String) : Prop :=
  List.Forall₂ (fun item column => (" AS " ++ d.quote column).toList <:+ item) items columns

/-- The text brings no comma and no word `FROM` outside quoted text and parentheses. -/
def StandsAlone (d : Dialect) (text : String) : Prop :=
  comma ∉ itemMarks d text ∧ untilFrom d false (itemMarks d text) = none

/-- The first expression with a `FROM` of its own ends the select clause early, and what stands in
front of that `FROM` spells out items for all the names all the same. -/
def CutShort (d : Dialect) (entries : List (String × Expr)) : Prop :=
  ∃ before name e after cut, entries = before ++ (name, e) :: after ∧
    (∀ entry ∈ before, untilFrom d false (itemMarks d entry.2.text) = none) ∧
    untilFrom d false (itemMarks d e.text) = some cut ∧
    NamesColumns d (before.flatMap (fun entry => parts (itemMarks d (Query.entryItem d entry))) ++
      parts cut) (entries.map Prod.fst)

/-- The statement names the columns: it can be cut into items, and these do. -/
def Names (d : Dialect) (sql : String) (columns : List String) : Prop :=
  ∃ items, outputItems d sql = some items ∧ NamesColumns d items columns

theorem visible_of_supportedBy {d : Dialect} {e : Expr} (h : e.supportedBy d = true) :
    ∃ c ∈ e.text.toList, Text.isBlank c = false := by
  have problem := Expr.problem_text_of_supportedBy h
  have blank := ((problem_eq_none_iff d e.text).1 problem).1
  simpa [Text.isBlankText] using blank

theorem mem_of_mem_splitOn {ms part : List Mark} (h : part ∈ ms.splitOn comma) :
    ∀ m ∈ part, m ∈ ms := by
  induction ms generalizing part with
  | nil =>
    rw [List.splitOn_nil, List.mem_singleton] at h
    rw [h]
    exact fun m hm => hm
  | cons x xs ih =>
    rw [List.splitOn_cons_eq_if_modifyHead] at h
    split at h
    · rcases List.mem_cons.1 h with rfl | h
      · exact fun m hm => absurd hm (List.not_mem_nil)
      · exact fun m hm => List.mem_cons_of_mem _ (ih h m hm)
    · cases hs : xs.splitOn comma with
      | nil => exact absurd hs (List.splitOn_ne_nil comma xs)
      | cons first rest =>
        rw [hs, List.modifyHead_cons] at h
        intro m hm
        rcases List.mem_cons.1 h with rfl | h
        · rcases List.mem_cons.1 hm with rfl | hm
          · exact List.mem_cons_self ..
          · exact List.mem_cons_of_mem _ (ih (hs ▸ List.mem_cons_self ..) m hm)
        · exact List.mem_cons_of_mem _ (ih (hs ▸ List.mem_cons_of_mem _ h) m hm)

theorem itemsOf_eq_parts {d : Dialect} {text : List Mark} {column : String} {columns : List String}
    (h : NamesColumns d (parts text) (column :: columns)) : itemsOf text = parts text := by
  obtain ⟨item, items, named, -, hp⟩ := List.forall₂_cons_right_iff.1 h
  -- the `A` of ` AS ` is no blank
  have letter : 'A' ∈ item := by
    refine named.subset ?_
    rw [String.toList_append]
    exact List.mem_append_left _ (by decide)
  have member : item ∈ parts text := hp ▸ List.mem_cons_self ..
  obtain ⟨part, hs, rfl⟩ := List.mem_map.1 member
  obtain ⟨front, back, split, -, -⟩ := Text.trimChars_decompose (part.map Prod.fst)
  have within : 'A' ∈ part.map Prod.fst := by
    rw [split]
    exact List.mem_append_left _ (List.mem_append_right _ letter)
  obtain ⟨m, hm, hA⟩ := List.mem_map.1 within
  have mixed : ¬(text.all fun m => Text.isBlank m.1) = true := by
    intro all
    have blank := List.all_eq_true.1 all m (mem_of_mem_splitOn hs m hm)
    rw [hA] at blank
    exact absurd blank (by decide)
  rw [itemsOf, if_neg mixed]

theorem namesColumns_of_standsAlone {d : Dialect} (entries : List (String × Expr))
    (hs : ∀ entry ∈ entries, entry.2.supportedBy d = true)
    (ha : ∀ entry ∈ entries, StandsAlone d entry.2.text) :
    NamesColumns d (entries.flatMap fun entry => parts (itemMarks d (Query.entryItem d entry)))
      (entries.map Prod.fst) := by
  induction entries with
  | nil => exact List.Forall₂.nil
  | cons entry rest ih =>
    have supported := hs entry (by simp)
    obtain ⟨item, hi, named⟩ := suffix_parts_aliased entry.1 (reads_of_supportedBy supported 0)
      (visible_of_supportedBy supported) (ha entry (by simp)).1
    have hr := ih (fun x hx => hs x (by simp [hx])) (fun x hx => ha x (by simp [hx]))
    rw [List.flatMap_cons, List.map_cons]
    show NamesColumns d (parts (marks d .start (Query.aliased d entry.2.text entry.1).toList) ++ _) _
    rw [hi]
    exact List.Forall₂.cons named hr

theorem comma_not_mem_of_length {d : Dialect} (entries : List (String × Expr))
    (hs : ∀ entry ∈ entries, entry.2.supportedBy d = true)
    (hl : (entries.flatMap fun entry => parts (itemMarks d (Query.entryItem d entry))).length ≤
      entries.length) : ∀ entry ∈ entries, comma ∉ itemMarks d entry.2.text := by
  have least (es : List (String × Expr)) : es.length ≤
      (es.flatMap fun entry => parts (itemMarks d (Query.entryItem d entry))).length := by
    induction es with
    | nil => exact Nat.le_refl _
    | cons e es ih =>
      have one := one_le_length_parts (itemMarks d (Query.entryItem d e))
      rw [List.flatMap_cons, List.length_append, List.length_cons]
      omega
  induction entries with
  | nil => simp
  | cons entry rest ih =>
    have low := least rest
    rw [List.flatMap_cons, List.length_append, List.length_cons] at hl
    have one := one_le_length_parts (itemMarks d (Query.entryItem d entry))
    intro x hx hc
    rcases List.mem_cons.1 hx with rfl | hx
    · have reads := reads_of_supportedBy (hs x (by simp)) 0
      have two := one_lt_length_parts ((comma_mem_aliased_iff x.1 reads).2 hc)
      change 1 < (parts (itemMarks d (Query.entryItem d x))).length at two
      omega
    · exact ih (fun y hy => hs y (by simp [hy])) (by omega) x hx hc

theorem namesColumns_itemsOf_iff {d : Dialect} {text : List Mark} {columns : List String}
    (h : columns ≠ []) :
    NamesColumns d (itemsOf text) columns ↔ NamesColumns d (parts text) columns := by
  obtain ⟨column, rest, rfl⟩ := List.exists_cons_of_ne_nil h
  constructor
  · intro named
    unfold itemsOf at named
    split at named
    · cases named
    · exact named
  · intro named
    rw [itemsOf_eq_parts named]
    exact named

theorem first_from (d : Dialect) (entries : List (String × Expr)) :
    (∀ entry ∈ entries, untilFrom d false (itemMarks d entry.2.text) = none) ∨
    ∃ before name e after cut, entries = before ++ (name, e) :: after ∧
      (∀ entry ∈ before, untilFrom d false (itemMarks d entry.2.text) = none) ∧
      untilFrom d false (itemMarks d e.text) = some cut := by
  induction entries with
  | nil => exact Or.inl (by simp)
  | cons entry rest ih =>
    cases he : untilFrom d false (itemMarks d entry.2.text) with
    | some cut => exact Or.inr ⟨[], entry.1, entry.2, rest, cut, rfl, by simp, he⟩
    | none =>
      rcases ih with all | ⟨before, name, e, after, cut, split, hb, hm⟩
      · exact Or.inl (List.forall_mem_cons.2 ⟨he, all⟩)
      · refine Or.inr ⟨entry :: before, name, e, after, cut, ?_, List.forall_mem_cons.2 ⟨he, hb⟩, hm⟩
        rw [split, List.cons_append]

section Layer

variable {d : Dialect} {entries : List (String × Expr)}

theorem clauseMarks_entries (h : entries ≠ []) :
    clauseMarks d (entries.map (Query.entryItem d)) = (' ', true) :: separator.intercalate
      (entries.map fun entry => itemMarks d (Query.entryItem d entry)) := by
  rw [clauseMarks, if_neg (by simpa using h), List.map_map]
  rfl

theorem outputItems_whole (rest : String)
    (hs : ∀ entry ∈ entries, entry.2.supportedBy d = true) (hne : entries ≠ [])
    (hf : ∀ entry ∈ entries, untilFrom d false (itemMarks d entry.2.text) = none) :
    ∃ text, outputItems d (Query.selectItems (entries.map (Query.entryItem d)) ++ " FROM " ++ rest) =
        some (itemsOf text) ∧
      parts text = entries.flatMap fun entry => parts (itemMarks d (Query.entryItem d entry)) := by
  have search : untilFrom d false (separator.intercalate
      (entries.map fun entry => itemMarks d (Query.entryItem d entry))) = none := by
    refine untilFrom_items_none _ ?_
    intro m hm
    obtain ⟨entry, he, rfl⟩ := List.mem_map.1 hm
    exact (untilFrom_aliased entry.1 (reads_of_supportedBy (hs entry he) 0)).trans (hf entry he)
  refine ⟨_, outputItems_select rest (Query.reads_entryItems hs), ?_⟩
  rw [clauseMarks_entries hne, untilFrom_cons_of_not_word (isWordChar_space d), search]
  show parts ((' ', true) :: separator.intercalate _ ++ [(' ', true)]) = _
  rw [parts_append_blank (by decide) (by decide), parts_cons_blank (by decide) (by decide),
    parts_items _ (by simpa using hne), List.flatMap_map]

theorem outputItems_cut (rest : String) {before after : List (String × Expr)} {name : String}
    {e : Expr} {cut : List Mark} (split : entries = before ++ (name, e) :: after)
    (hs : ∀ entry ∈ entries, entry.2.supportedBy d = true)
    (hb : ∀ entry ∈ before, untilFrom d false (itemMarks d entry.2.text) = none)
    (hm : untilFrom d false (itemMarks d e.text) = some cut) :
    ∃ text, outputItems d (Query.selectItems (entries.map (Query.entryItem d)) ++ " FROM " ++ rest) =
        some (itemsOf text) ∧
      parts text = (before.flatMap fun entry => parts (itemMarks d (Query.entryItem d entry))) ++
        parts cut := by
  have item (entry : String × Expr) (he : entry ∈ entries) :
      untilFrom d false (itemMarks d (Query.entryItem d entry)) =
        untilFrom d false (itemMarks d entry.2.text) :=
    untilFrom_aliased entry.1 (reads_of_supportedBy (hs entry he) 0)
  have front : ∀ x ∈ before.map fun entry => itemMarks d (Query.entryItem d entry),
      untilFrom d false x = none := by
    intro x hx
    obtain ⟨entry, he, rfl⟩ := List.mem_map.1 hx
    rw [item entry (split ▸ List.mem_append_left _ he)]
    exact hb entry he
  have search := untilFrom_items_some _ (itemMarks d (Query.entryItem d (name, e)))
    (after.map fun entry => itemMarks d (Query.entryItem d entry)) front
    ((item (name, e) (split ▸ List.mem_append_right _ (List.mem_cons_self ..))).trans hm)
  refine ⟨_, outputItems_select rest (Query.reads_entryItems hs), ?_⟩
  rw [clauseMarks_entries (by simp [split]), untilFrom_cons_of_not_word (isWordChar_space d)]
  rw [split, List.map_append, List.map_cons, search]
  show parts ((' ', true) :: ((List.flatMap _ _) ++ cut)) = _
  rw [parts_cons_blank (by decide) (by decide), parts_before, List.flatMap_map]

/-- The items of a layer name its columns if no expression brings a comma or a `FROM`, and otherwise
only if the part in front of the first `FROM` happens to. -/
theorem names_select_iff (rest : String)
    (hs : ∀ entry ∈ entries, entry.2.supportedBy d = true) :
    Names d (Query.selectItems (entries.map (Query.entryItem d)) ++ " FROM " ++ rest)
        (entries.map Prod.fst) ↔
      (∀ entry ∈ entries, StandsAlone d entry.2.text) ∨ CutShort d entries := by
  constructor
  · rintro ⟨items, hi, named⟩
    by_cases empty : entries = []
    · exact Or.inl (by simp [empty])
    have columns : entries.map Prod.fst ≠ [] := by simpa using empty
    rcases first_from d entries with all | ⟨before, name, e, after, cut, split, hb, hm⟩
    · obtain ⟨text, ht, hp⟩ := outputItems_whole rest hs empty all
      rw [ht, Option.some.injEq] at hi
      rw [← hi, namesColumns_itemsOf_iff columns, hp] at named
      have count := named.length_eq
      rw [List.length_map] at count
      -- every entry gives at least one part, so that as many parts as names leave no comma over
      have commas := comma_not_mem_of_length entries hs (Nat.le_of_eq count)
      exact Or.inl fun entry he => ⟨commas entry he, all entry he⟩
    · obtain ⟨text, ht, hp⟩ := outputItems_cut rest split hs hb hm
      rw [ht, Option.some.injEq] at hi
      rw [← hi, namesColumns_itemsOf_iff columns, hp] at named
      exact Or.inr ⟨before, name, e, after, cut, split, hb, hm, named⟩
  · rintro (alone | ⟨before, name, e, after, cut, split, hb, hm, named⟩)
    · by_cases empty : entries = []
      · subst empty
        refine ⟨[], ?_, List.Forall₂.nil⟩
        rw [List.map_nil, outputItems_select rest (by simp)]
        rfl
      · obtain ⟨text, ht, hp⟩ := outputItems_whole rest hs empty fun entry he => (alone entry he).2
        refine ⟨_, ht, ?_⟩
        rw [namesColumns_itemsOf_iff (by simpa using empty), hp]
        exact namesColumns_of_standsAlone entries hs alone
    · obtain ⟨text, ht, hp⟩ := outputItems_cut rest split hs hb hm
      refine ⟨_, ht, ?_⟩
      rw [namesColumns_itemsOf_iff (by simp [split]), hp]
      exact named

end Layer

theorem standsAlone_quote (d : Dialect) (name : String) : StandsAlone d (d.quote name) :=
  ⟨comma_not_mem_quote d name, untilFrom_quote d name⟩

instance (d : Dialect) (text : String) : Decidable (StandsAlone d text) :=
  inferInstanceAs (Decidable (_ ∧ _))

instance (d : Dialect) (items : List (List Char)) (columns : List String) :
    Decidable (NamesColumns d items columns) :=
  inferInstanceAs (Decidable (List.Forall₂ _ items columns))

instance (d : Dialect) (sql : String) (columns : List String) : Decidable (Names d sql columns) :=
  match h : outputItems d sql with
  | none => isFalse fun ⟨_, hi, _⟩ => nomatch h.symm.trans hi
  | some items => decidable_of_iff (NamesColumns d items columns)
    ⟨fun hn => ⟨items, h, hn⟩, fun ⟨_, hi, hn⟩ => Option.some.inj (h.symm.trans hi) ▸ hn⟩

end OutputItems

/-! ### Relations -/

open OutputItems

/-- The expressions handed over that stand in the outermost select clause after the operation. -/
def Operation.shown : Operation → List Expr
  | setColumn _ value => [value]
  | select columns => columns.expressions
  | groupBy grouping => grouping.select.expressions
  | _ => []

namespace Relation

/-- The names and expressions of the outermost select clause after the operation. A deduplication
ends in references to the columns of the layer that numbers the rows. -/
def outerEntries (r : Relation) : Operation → List (String × Expr)
  | .deduplicate deduplication => deduplication.select.names.map (reference r.dialect)
  | op => (r.outputList op).entries

theorem map_fst_outerEntries (r : Relation) (op : Operation) :
    (r.outerEntries op).map Prod.fst = (r.outputList op).names := by
  cases op with
  | deduplicate deduplication => exact map_fst_reference _ _
  | _ => rfl

theorem legal_of_acceptableList {d : Dialect} {es : List Expr} {names : List String}
    (h : Operation.acceptableList d es names = true) : ∀ name ∈ names, d.isLegal name = true := by
  simp only [Operation.acceptableList, Bool.and_eq_true] at h
  exact ((Dialect.acceptsColumns_iff d names).1 h.2).1

theorem supportedBy_outerEntries {r : Relation} {op : Operation}
    (h : r.dialect.acceptsColumns r.columns = true) (ha : op.acceptable r.dialect = true) :
    ∀ entry ∈ r.outerEntries op, entry.2.supportedBy r.dialect = true := by
  have output := supportedBy_outputList h ha
  cases op with
  | deduplicate deduplication =>
    have names := acceptsColumns_outputList h ha
    exact supportedBy_reference names
  | _ => exact output

/-- Every layer is its outermost select clause over something. -/
theorem layer_eq {r : Relation} {op : Operation} (ha : op.acceptable r.dialect = true) :
    ∃ rest, r.layer op = Query.selectItems ((r.outerEntries op).map (Query.entryItem r.dialect)) ++
      " FROM " ++ rest := by
  cases op with
  | groupBy grouping =>
    refine ⟨Query.derivedTable r.dialect r.sql r.name ++
      if grouping.keys.isEmpty then "" else " GROUP BY " ++ Query.exprList grouping.keys, ?_⟩
    rw [← String.append_assoc]
    rfl
  | deduplicate deduplication =>
    have items : (deduplication.select.names.map fun label =>
        Query.aliased r.dialect (r.dialect.quote label) label) =
          (r.outerEntries (.deduplicate deduplication)).map (Query.entryItem r.dialect) := by
      rw [outerEntries, List.map_map]
      refine List.map_congr_left ?_
      intro label hl
      have text := (Expr.ofColumn_of_isLegal (legal_of_acceptableList ha label hl)).1
      show _ = Query.aliased r.dialect (Expr.ofColumn r.dialect label).text label
      rw [text]
    apply Exists.intro
    simp only [layer, Query.deduplicated, items, String.append_assoc]
    rfl
  | _ =>
    apply Exists.intro
    simp only [layer, Query.nested, Query.selectClause, String.append_assoc]
    rfl

theorem forall_reference {d : Dialect} {P : String → Prop} {columns : List String}
    (hP : ∀ column ∈ columns, P (d.quote column))
    (h : ∀ column ∈ columns, d.isLegal column = true) :
    ∀ entry ∈ columns.map (reference d), P entry.2.text := by
  intro entry he
  obtain ⟨column, hc, rfl⟩ := List.mem_map.1 he
  show P (Expr.ofColumn d column).text
  rw [(Expr.ofColumn_of_isLegal (h column hc)).1]
  exact hP column hc

/-- What every reference has, all of the outermost select clause has if the expressions that were
handed over have it. -/
theorem forall_outerEntries_iff {r : Relation} {op : Operation} {P : String → Prop}
    (hP : ∀ name, r.dialect.isLegal name = true → P (r.dialect.quote name))
    (h : r.dialect.acceptsColumns r.columns = true) (ha : op.acceptable r.dialect = true) :
    (∀ entry ∈ r.outerEntries op, P entry.2.text) ↔ ∀ e ∈ op.shown, P e.text := by
  have references {columns : List String}
      (legal : ∀ column ∈ columns, r.dialect.isLegal column = true) :
      ∀ entry ∈ columns.map (reference r.dialect), P entry.2.text :=
    forall_reference (fun column hc => hP column (legal column hc)) legal
  have legal := ((Dialect.acceptsColumns_iff r.dialect r.columns).1 h).1
  have own := references legal
  have none : ∀ e ∈ ([] : List Expr), P e.text := by simp
  have handed (l : SelectList) :
      (∀ entry ∈ l.entries, P entry.2.text) ↔ ∀ e ∈ l.expressions, P e.text := by
    simp only [SelectList.expressions, List.forall_mem_map]
  cases op with
  | setColumn name value =>
    simp only [Operation.shown, List.mem_singleton, forall_eq]
    cases hn : r.column? name with
    | none =>
      show (∀ entry ∈ (r.outputList _).entries, _) ↔ _
      rw [entries_setColumn_of_none value h hn, List.forall_mem_append]
      simp only [List.mem_singleton, forall_eq]
      exact and_iff_right own
    | some column =>
      obtain ⟨front, back, split, -, entries⟩ := entries_setColumn_of_some value h hn
      rw [split, List.map_append, List.map_cons, List.forall_mem_append, List.forall_mem_cons] at own
      show (∀ entry ∈ (r.outputList _).entries, _) ↔ _
      rw [entries, List.forall_mem_append, List.forall_mem_cons]
      exact ⟨fun both => both.2.1, fun alone => ⟨own.1, alone, own.2.2⟩⟩
  | dropColumn name =>
    have kept : ∀ column ∈ r.columns.filter fun c => !r.dialect.sameColumn c name,
        r.dialect.isLegal column = true := fun column hc => legal column (List.mem_filter.1 hc).1
    show (∀ entry ∈ (r.outputList _).entries, _) ↔ _
    rw [entries_dropColumn name h]
    exact iff_of_true (references kept) none
  | select columns => exact handed columns
  | filter condition =>
    show (∀ entry ∈ r.selected.entries, _) ↔ _
    rw [entries_selected h]
    exact iff_of_true own none
  | groupBy grouping => exact handed grouping.select
  | deduplicate deduplication => exact iff_of_true (references (legal_of_acceptableList ha)) none

theorem names_ofTable {d : Dialect} {s : TableSource} {r : Relation} (h : ofTable d s = .ok r) :
    Names d r.sql r.columns := by
  obtain ⟨fault, rfl⟩ := (ofTable_eq_ok_iff d s r).1 h
  have accepted := TableSource.acceptsColumns_of_fault_eq_none fault
  have nodup := Dialect.nodup_of_acceptsColumns accepted
  have legal := ((Dialect.acceptsColumns_iff d s.columns).1 accepted).1
  have named := (names_select_iff (s.reference d) (supportedBy_reference accepted)).2
    (Or.inl (forall_reference (fun column _ => standsAlone_quote d column) legal))
  rw [map_fst_reference] at named
  show Names d (Query.selectItems ((selectColumns d s.columns).entries.map _) ++ " FROM " ++ _)
    (selectColumns d s.columns).names
  rw [names_selectColumns nodup, entries_selectColumns nodup]
  exact named

theorem names_layer_iff {r : Relation} {op : Operation}
    (h : r.dialect.acceptsColumns r.columns = true) (ha : op.acceptable r.dialect = true) :
    Names r.dialect (r.layer op) (r.outputList op).names ↔
      (∀ e ∈ op.shown, StandsAlone r.dialect e.text) ∨ CutShort r.dialect (r.outerEntries op) := by
  obtain ⟨rest, layer⟩ := layer_eq ha
  rw [layer, ← map_fst_outerEntries, names_select_iff rest (supportedBy_outerEntries h ha),
    forall_outerEntries_iff (fun name _ => standsAlone_quote r.dialect name) h ha]

namespace Reached

variable {d : Dialect} {s : TableSource} {ops : List Operation} {r : Relation}

/-- The outermost select clause of a base names the columns. After an operation it does so exactly if
no expression that the operation shows brings a comma or a `FROM` outside quotes and parentheses, or
the text in front of such a `FROM` spells out the right items. -/
theorem sql_names_columns_iff (h : Reached d s ops r) :
    (ops = [] → Names d r.sql r.columns) ∧
    ∀ init op q, ops = init ++ [op] → Reached d s init q →
      (Names d r.sql r.columns ↔
        (∀ e ∈ op.shown, StandsAlone d e.text) ∨ CutShort d (q.outerEntries op)) := by
  constructor
  · rintro rfl
    exact names_ofTable (nil_iff.1 h)
  · rintro init op q rfl hq
    obtain ⟨q', hq', happ⟩ := snoc_iff.1 h
    cases hq.unique hq'
    obtain ⟨ha, rfl⟩ := (apply_eq_ok_iff q op r).1 happ
    have layer := names_layer_iff hq.acceptsColumns ha
    rw [hq.dialect_eq] at layer
    exact layer

/-- Commas inside quotes and parentheses do no harm. -/
theorem sql_names_columns_concat :
    ∃ r, Reached .bigQuery ⟨"p", "d", "t", "ds", ["id", "Name"]⟩
        [.setColumn "x" (.ofFragment .bigQuery "CONCAT('a, b', Name)")] r ∧
      r.columns = ["id", "Name", "x"] ∧ Names .bigQuery r.sql r.columns := by
  have reached : Reached .bigQuery ⟨"p", "d", "t", "ds", ["id", "Name"]⟩
      [.setColumn "x" (.ofFragment .bigQuery "CONCAT('a, b', Name)")]
      ⟨.bigQuery, "t", "ds", ["id", "Name", "x"],
        "SELECT id AS id, Name AS Name, CONCAT('a, b', Name) AS x FROM " ++
          "(SELECT id AS id, Name AS Name FROM `p.d.t`) AS ds", 1, .setColumn⟩ := by
    decide +kernel
  have base : Reached .bigQuery ⟨"p", "d", "t", "ds", ["id", "Name"]⟩ []
      ⟨.bigQuery, "t", "ds", ["id", "Name"], "SELECT id AS id, Name AS Name FROM `p.d.t`", 0,
        .base⟩ := by
    decide +kernel
  refine ⟨_, reached, rfl, (reached.sql_names_columns_iff.2 [] _ _ rfl base).2 (Or.inl ?_)⟩
  decide +kernel

/-- A bare comma is accepted and adds an output column that the relation does not list. -/
theorem sql_names_columns_fails_at_comma :
    ∃ r, Reached .bigQuery ⟨"p", "d", "t", "ds", ["id", "Name"]⟩
        [.setColumn "x" (.ofFragment .bigQuery "1 AS y, 2")] r ∧
      r.columns = ["id", "Name", "x"] ∧ ¬Names .bigQuery r.sql r.columns := by
  refine ⟨⟨.bigQuery, "t", "ds", ["id", "Name", "x"],
    "SELECT id AS id, Name AS Name, 1 AS y, 2 AS x FROM " ++
      "(SELECT id AS id, Name AS Name FROM `p.d.t`) AS ds", 1, .setColumn⟩, ?_, rfl, ?_⟩
  · decide +kernel
  · decide +kernel

end Reached

end Relation

end LayeredSql
