import LayeredSql.Proofs.NameReading

/-!
# References to stored tables

A reference is cut into names and dots by the rules of the dialect alone. In BigQuery it is one quoted
name, the path with its dots inside the quotes; in PostgreSQL it is two names around a dot. What can be
read off a reference cannot differ between equal references, and this is how they tell tables apart: up
to the dots of the path in BigQuery, and up to the project in PostgreSQL.
-/

namespace LayeredSql.Dialect

/-- The parts of a path: names, quoted or bare, and the dots that stand outside names. -/
inductive PathToken where
  | name (text : String) (quoted : Bool)
  | dot
deriving DecidableEq, Repr

/-- The part of a path at the front of the text, and what follows it. -/
def readToken (d : Dialect) : List Char → Option (PathToken × List Char)
  | [] => none
  | c :: cs =>
    if c = '.' then some (.dot, cs)
    else (d.readName (c :: cs)).map fun read => (.name read.1 (c = d.identifierQuote), read.2)

theorem length_readToken_lt {d : Dialect} {cs rest : List Char} {token : PathToken}
    (h : d.readToken cs = some (token, rest)) : rest.length < cs.length := by
  cases cs with
  | nil => cases h
  | cons c cs =>
    rw [readToken] at h
    split at h
    · cases h
      exact Nat.lt_succ_self _
    · obtain ⟨read, hr, heq⟩ := Option.map_eq_some_iff.1 h
      cases heq
      exact length_readName_lt hr

/-- That many parts of a path, and what follows them. -/
def readTokens (d : Dialect) : Nat → List Char → Option (List PathToken × List Char)
  | 0, cs => some ([], cs)
  | count + 1, cs => do
    let (token, cs) ← d.readToken cs
    let (more, cs) ← d.readTokens count cs
    return (token :: more, cs)

/-- The whole text as names and dots. A text with anything else in it is no path. -/
def pathTokens (d : Dialect) (cs : List Char) : Option (List PathToken) :=
  if cs = [] then some []
  else
    match _h : d.readToken cs with
    | none => none
    | some (token, rest) => (d.pathTokens rest).map (List.cons token)
termination_by cs.length
decreasing_by exact length_readToken_lt _h

section Tokens

variable {d : Dialect} {cs rest : List Char}

theorem readTokens_succ {count : Nat} {token : PathToken} {more : List PathToken}
    {last : List Char} (h : d.readToken cs = some (token, rest))
    (hm : d.readTokens count rest = some (more, last)) :
    d.readTokens (count + 1) cs = some (token :: more, last) := by
  simp [readTokens, h, hm]

theorem pathTokens_nil (d : Dialect) : d.pathTokens [] = some [] := by
  rw [pathTokens, if_pos rfl]

theorem pathTokens_of_readToken {token : PathToken} (h : d.readToken cs = some (token, rest)) :
    d.pathTokens cs = (d.pathTokens rest).map (List.cons token) := by
  have some : cs ≠ [] := by
    rintro rfl
    cases h
  rw [pathTokens, if_neg some]
  split
  · rename_i none
    cases h.symm.trans none
  · rename_i found
    cases h.symm.trans found
    rfl

/-- A text that is used up by some number of parts is the path of these parts. -/
theorem pathTokens_of_readTokens {count : Nat} {tokens : List PathToken}
    (h : d.readTokens count cs = some (tokens, [])) : d.pathTokens cs = some tokens := by
  induction count generalizing cs tokens with
  | zero =>
    cases h
    exact pathTokens_nil d
  | succ count ih =>
    obtain ⟨⟨token, behind⟩, first, h⟩ := Option.bind_eq_some_iff.1 h
    obtain ⟨⟨more, last⟩, others, h⟩ := Option.bind_eq_some_iff.1 h
    cases h
    rw [pathTokens_of_readToken first, ih others]
    rfl

theorem identifierQuote_ne_dot (d : Dialect) : d.identifierQuote ≠ '.' := by
  cases d <;> decide

theorem readToken_of_readName {c : Char} {text : String} (hc : c ≠ '.')
    (h : d.readName (c :: cs) = some (text, rest)) :
    d.readToken (c :: cs) = some (.name text (c = d.identifierQuote), rest) := by
  rw [readToken, if_neg hc, h]
  rfl

theorem readToken_forceQuote (h : d.EndsName rest) (name : String) :
    d.readToken ((d.forceQuote name).toList ++ rest) = some (.name name true, rest) := by
  have read := readName_forceQuote h name
  rw [Fragment.toList_forceQuote, List.cons_append] at read ⊢
  rw [readToken_of_readName d.identifierQuote_ne_dot read]
  simp

theorem readToken_quote (h : d.EndsName rest) (name : String) :
    d.readToken ((d.quote name).toList ++ rest) =
      some (.name name (d.needsQuoting name), rest) := by
  have read := readName_quote h name
  cases quoted : d.needsQuoting name with
  | true =>
    rw [quote, if_pos quoted]
    exact readToken_forceQuote h name
  | false =>
    rw [quote, if_neg (by simp [quoted])] at read ⊢
    have word := isBareWord_of_needsQuoting_eq_false quoted
    cases hs : name.toList with
    | nil =>
      rw [hs] at word
      cases word
    | cons c cs =>
      -- a dot and a quote are no characters of a bare word
      have plain := Fragment.all_isPlainRest_of_needsQuoting_eq_false quoted c (by simp [hs])
      have notDot : c ≠ '.' := by
        rintro rfl
        cases d <;> cases plain
      have notQuote : c ≠ d.identifierQuote := by
        rintro rfl
        cases d <;> cases plain
      rw [hs, List.cons_append] at read
      rw [List.cons_append, readToken_of_readName notDot read, decide_eq_false notQuote]

end Tokens

/-! ### References -/

/-- The number of parts of a table reference. -/
def pathLength : Dialect → Nat
  | bigQuery => 1
  | postgreSql => 3

/-- The parts of a table reference. -/
def tableTokens (d : Dialect) (project dataset table : String) : List PathToken :=
  match d with
  | bigQuery => [.name (project ++ "." ++ dataset ++ "." ++ table) true]
  | postgreSql => [.name dataset (postgreSql.needsQuoting dataset), .dot,
      .name table (postgreSql.needsQuoting table)]

theorem readTokens_tableReference {d : Dialect} {rest : List Char} (h : d.EndsName rest)
    (project dataset table : String) :
    d.readTokens d.pathLength ((d.tableReference project dataset table).toList ++ rest) =
      some (d.tableTokens project dataset table, rest) := by
  cases d with
  | bigQuery =>
    rw [Fragment.tableReference_bigQuery]
    exact readTokens_succ (readToken_forceQuote h _) rfl
  | postgreSql =>
    have text : (postgreSql.tableReference project dataset table).toList ++ rest =
        (postgreSql.quote dataset).toList ++ '.' :: ((postgreSql.quote table).toList ++ rest) := by
      simp [tableReference]
    have dot : postgreSql.EndsName ('.' :: ((postgreSql.quote table).toList ++ rest)) := by
      simp [EndsName, isBareRest, identifierQuote]
    rw [text]
    exact readTokens_succ (readToken_quote dot dataset)
      (readTokens_succ rfl (readTokens_succ (readToken_quote h table) rfl))

theorem pathTokens_tableReference (d : Dialect) (project dataset table : String) :
    d.pathTokens (d.tableReference project dataset table).toList =
      some (d.tableTokens project dataset table) := by
  have read := readTokens_tableReference d.endsName_nil project dataset table
  rw [List.append_nil] at read
  exact pathTokens_of_readTokens read

section References

variable (project dataset table project' dataset' table' : String)

theorem tableReference_postgreSql_eq_iff :
    postgreSql.tableReference project dataset table =
        postgreSql.tableReference project' dataset' table' ↔
      dataset = dataset' ∧ table = table' := by
  constructor
  · intro same
    have tokens := pathTokens_tableReference postgreSql project dataset table
    rw [same, pathTokens_tableReference] at tokens
    simp only [tableTokens, Option.some.injEq, List.cons.injEq, PathToken.name.injEq, and_true,
      true_and] at tokens
    exact ⟨tokens.1.1.symm, tokens.2.1.symm⟩
  · rintro ⟨rfl, rfl⟩
    rfl

theorem tableReference_bigQuery_eq_iff :
    bigQuery.tableReference project dataset table =
        bigQuery.tableReference project' dataset' table' ↔
      project ++ "." ++ dataset ++ "." ++ table = project' ++ "." ++ dataset' ++ "." ++ table' := by
  constructor
  · intro same
    have tokens := pathTokens_tableReference bigQuery project dataset table
    rw [same, pathTokens_tableReference] at tokens
    simp only [tableTokens, Option.some.injEq, List.cons.injEq, PathToken.name.injEq, and_true]
      at tokens
    exact tokens.symm
  · intro same
    rw [Fragment.tableReference_bigQuery, Fragment.tableReference_bigQuery, same]

end References

/-- What stands in front of the first dot of a text is determined by the text. -/
theorem eq_of_append_dot {front front' back back' : String} (h : '.' ∉ front.toList)
    (h' : '.' ∉ front'.toList) (same : front ++ "." ++ back = front' ++ "." ++ back') :
    front = front' ∧ back = back' := by
  have cut {xs : List Char} (hx : '.' ∉ xs) (ys : List Char) :
      (xs ++ '.' :: ys).takeWhile (fun c => c != '.') = xs := by
    have all : ∀ c ∈ xs, (c != '.') = true := by
      intro c hc
      exact bne_iff_ne.2 fun dot => hx (dot ▸ hc)
    rw [List.takeWhile_append_of_pos all]
    simp
  have chars : front.toList ++ '.' :: back.toList = front'.toList ++ '.' :: back'.toList := by
    simpa using congrArg String.toList same
  have first : front.toList = front'.toList := by
    rw [← cut h back.toList, chars, cut h' back'.toList]
  rw [first, List.append_cancel_left_eq, List.cons.injEq] at chars
  exact ⟨String.toList_inj.1 first, String.toList_inj.1 chars.2⟩

/-- A reference is one quoted name in BigQuery and two names around a dot in PostgreSQL. It determines
the dotted path, or the dataset and the table; where projects and datasets have no dots, the path
determines its parts. -/
theorem tableReference_identifies_table (project dataset table project' dataset' table' : String) :
    (postgreSql.tableReference project dataset table =
        postgreSql.tableReference project' dataset' table' ↔ dataset = dataset' ∧ table = table') ∧
    (bigQuery.tableReference project dataset table =
        bigQuery.tableReference project' dataset' table' ↔
      project ++ "." ++ dataset ++ "." ++ table = project' ++ "." ++ dataset' ++ "." ++ table') ∧
    ((∀ part ∈ [project, dataset, project', dataset'], '.' ∉ part.toList) →
      bigQuery.tableReference project dataset table =
        bigQuery.tableReference project' dataset' table' →
      project = project' ∧ dataset = dataset' ∧ table = table') ∧
    bigQuery.pathTokens (bigQuery.tableReference project dataset table).toList =
      some [.name (project ++ "." ++ dataset ++ "." ++ table) true] ∧
    postgreSql.pathTokens (postgreSql.tableReference project dataset table).toList =
      some [.name dataset (postgreSql.needsQuoting dataset), .dot,
        .name table (postgreSql.needsQuoting table)] := by
  refine ⟨tableReference_postgreSql_eq_iff project dataset table project' dataset' table',
    tableReference_bigQuery_eq_iff project dataset table project' dataset' table', ?_,
    pathTokens_tableReference bigQuery project dataset table,
    pathTokens_tableReference postgreSql project dataset table⟩
  intro noDot same
  rw [tableReference_bigQuery_eq_iff] at same
  simp only [List.forall_mem_cons, List.not_mem_nil, false_imp_iff, implies_true, and_true] at noDot
  obtain ⟨hp, hd, hp', hd'⟩ := noDot
  have path : project ++ "." ++ (dataset ++ "." ++ table) =
      project' ++ "." ++ (dataset' ++ "." ++ table') := by
    simpa only [String.append_assoc] using same
  obtain ⟨projects, rest⟩ := eq_of_append_dot hp hp' path
  obtain ⟨datasets, tables⟩ := eq_of_append_dot hd hd' rest
  exact ⟨projects, datasets, tables⟩

/-- A dot that moves from one part to the next leaves the reference as it is. A sign that needs an escape
does not, since neither of the parts has a dot. -/
theorem tableReference_identifies_table_moved :
    bigQuery.tableReference "a.b" "c" "t" = bigQuery.tableReference "a" "b.c" "t" ∧
    bigQuery.tableReference "p\x60" "\\d" "t" ≠ bigQuery.tableReference "p" "\x60\\d" "t" := by
  constructor
  · exact (tableReference_identifies_table "a.b" "c" "t" "a" "b.c" "t").2.1.2 (by decide)
  · intro same
    have parts := (tableReference_identifies_table "p\x60" "\\d" "t" "p" "\x60\\d" "t").2.2.1
      (by decide) same
    exact absurd parts.1 (by decide)

end LayeredSql.Dialect
