import LayeredSql.Proofs.TableReferences
import LayeredSql.Query

/-!
# Statements of column references read as layers

A statement whose select lists hold column references only is a stored table under a number of layers,
and each layer gives names to columns of the one below. Here such a statement is read back from its
text. Every keyword that the reader looks for is reserved in both dialects, so no name is taken for
one: a select list without items is told from one that starts with a name, and a table from a derived
table.
-/

namespace LayeredSql

/-- One item of a select list: a column of what is selected from, and its name in the result. -/
structure Item where
  source : String
  label : String
deriving DecidableEq, Repr

/-- The item as it stands in a statement. -/
def Item.text (d : Dialect) (item : Item) : String :=
  Query.aliased d (d.quote item.source) item.label

inductive Layers where
  | table (items : List Item) (path : List String)
  | nested (items : List Item) (inner : Layers) (name : String)
deriving DecidableEq, Repr

namespace Layers

/-! ### Reading -/

/-- What follows the word, if the text starts with it. -/
def expect (word : String) (cs : List Char) : Option (List Char) :=
  if word.toList.isPrefixOf cs then some (cs.drop word.toList.length) else none

theorem expect_append (word : String) (cs : List Char) :
    expect word (word.toList ++ cs) = some cs := by
  rw [expect, if_pos (List.isPrefixOf_iff_prefix.2 (List.prefix_append _ _)), List.drop_left]

theorem length_expect {word : String} {cs rest : List Char} (h : expect word cs = some rest) :
    cs.length = word.toList.length + rest.length := by
  unfold expect at h
  split at h
  · rename_i hp
    have bound := (List.isPrefixOf_iff_prefix.1 hp).length_le
    cases h
    rw [List.length_drop]
    omega
  · cases h

def readItem (d : Dialect) (cs : List Char) : Option (Item × List Char) := do
  let (source, cs) ← d.readName cs
  let cs ← expect " AS " cs
  let (label, cs) ← d.readName cs
  return (⟨source, label⟩, cs)

theorem length_readItem_lt {d : Dialect} {cs rest : List Char} {item : Item}
    (h : readItem d cs = some (item, rest)) : rest.length < cs.length := by
  obtain ⟨⟨source, behind⟩, hs, h⟩ := Option.bind_eq_some_iff.1 h
  obtain ⟨more, hm, h⟩ := Option.bind_eq_some_iff.1 h
  obtain ⟨⟨label, last⟩, hl, h⟩ := Option.bind_eq_some_iff.1 h
  cases h
  have first := Dialect.length_readName_lt hs
  have keyword := length_expect hm
  have second := Dialect.length_readName_lt hl
  omega

/-- One item or more, with commas between them. -/
def readItems (d : Dialect) (cs : List Char) : Option (List Item × List Char) :=
  match h : readItem d cs with
  | none => none
  | some (item, rest) =>
    match h' : expect ", " rest with
    | none => some ([item], rest)
    | some more =>
      have shorter : more.length < cs.length := by
        have first := length_readItem_lt h
        have comma := length_expect h'
        omega
      (readItems d more).map (Prod.map (List.cons item) id)
termination_by cs.length

/-- The items of a select list and what stands behind its `FROM`. Where no item can be read there is
none. -/
def readClause (d : Dialect) (cs : List Char) : Option (List Item × List Char) := do
  let cs ← expect "SELECT " cs
  match readItems d cs with
  | some (items, rest) => (expect " FROM " rest).map (Prod.mk items)
  | none => (expect "FROM " cs).map (Prod.mk [])

/-- The names that make up a table reference: one, or two around a dot. -/
def readTable (d : Dialect) (cs : List Char) : Option (List String × List Char) := do
  match ← d.readTokens d.pathLength cs with
  | ([.name path _], rest) => some ([path], rest)
  | ([.name dataset _, .dot, .name stored _], rest) => some ([dataset, stored], rest)
  | _ => none

section Items

variable {d : Dialect} {cs rest : List Char} {item : Item}

theorem readItems_last (hi : readItem d cs = some (item, rest)) (hs : expect ", " rest = none) :
    readItems d cs = some ([item], rest) := by
  rw [readItems]
  split
  · rename_i none
    cases hi.symm.trans none
  · rename_i found
    cases hi.symm.trans found
    split
    · rfl
    · rename_i more
      cases hs.symm.trans more

theorem readItems_cons {more : List Char} (hi : readItem d cs = some (item, rest))
    (hm : expect ", " rest = some more) :
    readItems d cs = (readItems d more).map (Prod.map (List.cons item) id) := by
  rw [readItems]
  split
  · rename_i none
    cases hi.symm.trans none
  · rename_i found
    cases hi.symm.trans found
    split
    · rename_i stop
      cases hm.symm.trans stop
    · rename_i found'
      cases hm.symm.trans found'
      rfl

theorem length_readItems_lt {items : List Item} (h : readItems d cs = some (items, rest)) :
    rest.length < cs.length := by
  fun_induction readItems d cs generalizing items with
  | case1 cs none => cases h
  | case2 cs item behind hi stop =>
    cases h
    exact length_readItem_lt hi
  | case3 cs item behind hi more hm shorter ih =>
    obtain ⟨⟨others, last⟩, hr, heq⟩ := Option.map_eq_some_iff.1 h
    cases heq
    exact Nat.lt_trans (ih hr) shorter

end Items

theorem length_readClause_lt {d : Dialect} {cs rest : List Char} {items : List Item}
    (h : readClause d cs = some (items, rest)) : rest.length < cs.length := by
  have width : "SELECT ".toList.length = 7 := by decide
  obtain ⟨behind, hs, h⟩ := Option.bind_eq_some_iff.1 h
  have keyword := length_expect hs
  split at h
  · rename_i items' more hi
    obtain ⟨last, hl, heq⟩ := Option.map_eq_some_iff.1 h
    cases heq
    have list := length_readItems_lt hi
    have stop := length_expect hl
    omega
  · obtain ⟨last, hl, heq⟩ := Option.map_eq_some_iff.1 h
    cases heq
    have stop := length_expect hl
    omega

/-- A statement in front of the text, and what follows it. -/
def read (d : Dialect) (cs : List Char) : Option (Layers × List Char) :=
  match hc : readClause d cs with
  | none => none
  | some (items, source) =>
    match readTable d source with
    | some (path, rest) => some (.table items path, rest)
    | none =>
      match ho : expect "(" source with
      | none => none
      | some inner =>
        have shorter : inner.length < cs.length := by
          have clause := length_readClause_lt hc
          have opening := length_expect ho
          omega
        match read d inner with
        | none => none
        | some (layers, rest) => do
          let rest ← expect ") AS " rest
          let (name, rest) ← d.readName rest
          return (.nested items layers name, rest)
termination_by cs.length

section Statement

variable {d : Dialect} {cs source : List Char} {items : List Item}

theorem read_table {path : List String} {rest : List Char}
    (hc : readClause d cs = some (items, source)) (ht : readTable d source = some (path, rest)) :
    read d cs = some (.table items path, rest) := by
  rw [read]
  split
  · rename_i none
    cases hc.symm.trans none
  · rename_i found
    cases hc.symm.trans found
    rw [ht]

theorem read_nested {inner behind last rest : List Char} {layers : Layers} {name : String}
    (hc : readClause d cs = some (items, source)) (ht : readTable d source = none)
    (ho : expect "(" source = some inner) (hi : read d inner = some (layers, behind))
    (he : expect ") AS " behind = some last) (hn : d.readName last = some (name, rest)) :
    read d cs = some (.nested items layers name, rest) := by
  rw [read]
  split
  · rename_i none
    cases hc.symm.trans none
  · rename_i found
    cases hc.symm.trans found
    rw [ht]
    dsimp only
    split
    · rename_i none
      cases ho.symm.trans none
    · rename_i found'
      cases ho.symm.trans found'
      rw [hi]
      dsimp only
      rw [he]
      show (d.readName last).bind _ = _
      rw [hn]
      rfl

end Statement

/-- The whole text as one statement. -/
def ofText? (d : Dialect) (sql : String) : Option Layers :=
  match read d sql.toList with
  | some (layers, []) => some layers
  | _ => none

/-! ### What was written is read -/

section Written

variable {d : Dialect} {rest : List Char}

theorem readItem_text (h : d.EndsName rest) (item : Item) :
    readItem d ((item.text d).toList ++ rest) = some (item, rest) := by
  have text : (item.text d).toList ++ rest = (d.quote item.source).toList ++
      (" AS ".toList ++ ((d.quote item.label).toList ++ rest)) := by
    simp only [Item.text, Query.aliased, String.toList_append, List.append_assoc]
  have source := Dialect.readName_quote
    (d.endsName_word " AS " (by decide) ((d.quote item.label).toList ++ rest)) item.source
  rw [text, readItem, source]
  dsimp only [Option.bind_eq_bind, Option.bind_some]
  rw [expect_append, Option.bind_some, Dialect.readName_quote h item.label]
  rfl

theorem readItems_commaList (h : d.EndsName rest) (hc : expect ", " rest = none)
    {items : List Item} (hi : items ≠ []) :
    readItems d ((Query.commaList (items.map (Item.text d))).toList ++ rest) =
      some (items, rest) := by
  induction items with
  | nil => exact absurd rfl hi
  | cons item more ih =>
    cases more with
    | nil =>
      have text : (Query.commaList ([item].map (Item.text d))).toList = (item.text d).toList := by
        simp [Query.commaList]
      rw [text]
      exact readItems_last (readItem_text h item) hc
    | cons next others =>
      have text : (Query.commaList ((item :: next :: others).map (Item.text d))).toList ++ rest =
          (item.text d).toList ++ (", ".toList ++
            ((Query.commaList ((next :: others).map (Item.text d))).toList ++ rest)) := by
        simp [Query.commaList, String.toList_intercalate]
      have first := readItem_text (d.endsName_word ", " (by decide)
        ((Query.commaList ((next :: others).map (Item.text d))).toList ++ rest)) item
      rw [text, readItems_cons first (expect_append ", " _), ih (by simp)]
      rfl

/-- The keyword behind an empty select list is no name. -/
theorem readItems_from (d : Dialect) (cs : List Char) : readItems d ("FROM ".toList ++ cs) = none := by
  have word : ("FROM ".toList ++ cs).takeWhile d.isBareRest = ['F', 'R', 'O', 'M'] := by
    cases d <;> rfl
  have reserved : d.isBareWord ['F', 'R', 'O', 'M'] = false := by
    cases d <;> decide +kernel
  have bare : d.readBare ("FROM ".toList ++ cs) = none := by
    rw [Dialect.readBare, word, reserved]
    rfl
  have none : readItem d ("FROM ".toList ++ cs) = none := by
    have name : d.readName ("FROM ".toList ++ cs) = none := by
      have other : 'F' ≠ d.identifierQuote := by cases d <;> decide
      show (if 'F' = d.identifierQuote then _ else d.readBare ("FROM ".toList ++ cs)) = none
      rw [if_neg other, bare]
    rw [readItem, name]
    rfl
  rw [readItems]
  split
  · rfl
  · rename_i found
    cases none.symm.trans found

theorem readClause_selectItems (d : Dialect) (items : List Item) (source : List Char) :
    readClause d ((Query.selectItems (items.map (Item.text d)) ++ " FROM ").toList ++ source) =
      some (items, source) := by
  cases items with
  | nil =>
    have text : (Query.selectItems (([] : List Item).map (Item.text d)) ++ " FROM ").toList ++ source =
        "SELECT ".toList ++ ("FROM ".toList ++ source) := by
      simp [Query.selectItems]
    rw [text, readClause, expect_append]
    dsimp only [Option.bind_eq_bind, Option.bind_some]
    rw [readItems_from, expect_append]
    rfl
  | cons item more =>
    have text : (Query.selectItems ((item :: more).map (Item.text d)) ++ " FROM ").toList ++ source =
        "SELECT ".toList ++ ((Query.commaList ((item :: more).map (Item.text d))).toList ++
          (" FROM ".toList ++ source)) := by
      simp [Query.selectItems]
    have list : readItems d ((Query.commaList ((item :: more).map (Item.text d))).toList ++
        (" FROM ".toList ++ source)) = some (item :: more, " FROM ".toList ++ source) :=
      readItems_commaList (d.endsName_word " FROM " (by decide) source) rfl (by simp)
    rw [text, readClause, expect_append]
    dsimp only [Option.bind_eq_bind, Option.bind_some]
    rw [list]
    dsimp only
    rw [expect_append]
    rfl

/-- The names in a table reference. -/
def tablePath (d : Dialect) (project dataset table : String) : List String :=
  match d with
  | .bigQuery => [project ++ "." ++ dataset ++ "." ++ table]
  | .postgreSql => [dataset, table]

theorem readTable_tableReference (h : d.EndsName rest) (project dataset table : String) :
    readTable d ((d.tableReference project dataset table).toList ++ rest) =
      some (tablePath d project dataset table, rest) := by
  rw [readTable, Dialect.readTokens_tableReference h]
  cases d <;> rfl

/-- A parenthesis starts no table reference. -/
theorem readTable_open (d : Dialect) (cs : List Char) : readTable d ('(' :: cs) = none := by
  cases d <;> rfl

end Written

/-! ### Statements -/

/-- The text is read as these layers wherever it stands. -/
def Spells (d : Dialect) (text : String) (layers : Layers) : Prop :=
  ∀ rest, d.EndsName rest → read d (text.toList ++ rest) = some (layers, rest)

section Spells

variable {d : Dialect}

theorem Spells.ofText? {text : String} {layers : Layers} (h : Spells d text layers) :
    ofText? d text = some layers := by
  have whole := h [] (Dialect.endsName_nil d)
  rw [List.append_nil] at whole
  rw [Layers.ofText?, whole]

theorem spells_table (items : List Item) (project dataset table : String) :
    Spells d (Query.selectItems (items.map (Item.text d)) ++ " FROM " ++
        d.tableReference project dataset table)
      (.table items (tablePath d project dataset table)) := by
  intro rest h
  rw [String.toList_append, List.append_assoc]
  exact read_table (readClause_selectItems d items _) (readTable_tableReference h _ _ _)

theorem spells_derivedTable {source : String} {layers : Layers} (h : Spells d source layers)
    (items : List Item) (name : String) :
    Spells d (Query.selectItems (items.map (Item.text d)) ++ " FROM " ++
        Query.derivedTable d source name)
      (.nested items layers name) := by
  intro rest hr
  have text : (Query.derivedTable d source name).toList ++ rest =
      '(' :: (source.toList ++ (") AS ".toList ++ ((d.quote name).toList ++ rest))) := by
    simp [Query.derivedTable]
  rw [String.toList_append, List.append_assoc, text]
  exact read_nested (readClause_selectItems d items _) (readTable_open d _) (expect_append "(" _)
    (h _ (d.endsName_word ") AS " (by decide) _)) (expect_append _ _) (Dialect.readName_quote hr name)

-- an empty select list, and a column that goes by the keyword behind it
example : ofText? .postgreSql "SELECT FROM (SELECT \"from\" AS a FROM s.t) AS ds" =
    some (.nested [] (.table [⟨"from", "a"⟩] ["s", "t"]) "ds") := by
  decide +kernel

end Spells

end Layers

end LayeredSql
