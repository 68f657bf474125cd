import LayeredSql.Proofs.Acceptance
import LayeredSql.Proofs.LowercaseForms
import LayeredSql.Proofs.NameQuoting
import Mathlib.Data.List.Nodup
import Mathlib.Data.List.Perm.Subperm
import Mathlib.Data.String.Basic

/-!
# The column that numbers the rows

A deduplication needs one column more than it yields, and searches a name for it: a base name made from a
digest, and then the base name with a number behind it. There are more candidates than output names and no
two of them are taken by the same output name, so the search ends. All candidates are words of digits, `_`
and a few small letters, none of which is the form of a character outside ASCII. Hence the comparison that
the search makes, which ignores the case of `A` to `Z` only, is as good as the one that the dialect makes.
-/

namespace LayeredSql.Query

/-! ### Candidates -/

def hexAlphabet : List Char :=
  ['0', '1', '2', '3', '4', '5', '6', '7', '8', '9', 'a', 'b', 'c', 'd', 'e', 'f']

/-- The characters that candidates are made of. -/
def rankingAlphabet : List Char := '_' :: 'r' :: 'n' :: hexAlphabet

/-- A candidate with a number. -/
def numbered (base : String) (n : Nat) : String := base ++ "_" ++ toString n

/-- Words that begin with `_` and have only characters of candidates. -/
structure RankingWord (word : String) : Prop where
  start : word.toList.head? = some '_'
  letters : ∀ c ∈ word.toList, c ∈ rankingAlphabet

theorem isDigit_of_mem_toString {n : Nat} {c : Char} (h : c ∈ (toString n).toList) :
    c.isDigit = true := by
  rw [Nat.toString_eq_ofList_toDigits, String.toList_ofList] at h
  exact Nat.isDigit_of_mem_toDigits (by decide) (by decide) h

theorem mem_rankingAlphabet_of_isDigit {c : Char} (h : c.isDigit = true) : c ∈ rankingAlphabet := by
  have plain : Dialect.isPlainRest .postgreSql c = true := by simp [Dialect.isPlainRest, h]
  have bound := (Fragment.toNat_of_isPlainRest plain).2
  have digits : ∀ n < 128, (Char.ofNat n).isDigit = true → Char.ofNat n ∈ rankingAlphabet := by
    decide +kernel
  exact Text.forall_ascii (P := fun c => c.isDigit = true → c ∈ rankingAlphabet) digits (by omega) h

theorem mem_hexAlphabet_of_mem_hexDigits {n value : Nat} {c : Char}
    (h : c ∈ Digest.hexDigits n value) : c ∈ hexAlphabet := by
  have digit : ∀ m < 16, Nat.digitChar m ∈ hexAlphabet := by decide
  induction n generalizing value with
  | zero => cases h
  | succ n ih =>
    rw [Digest.hexDigits, List.mem_append, List.mem_singleton] at h
    rcases h with h | rfl
    · exact ih h
    · exact digit _ (Nat.mod_lt _ (by decide))

theorem length_hexDigits (n value : Nat) : (Digest.hexDigits n value).length = n := by
  induction n generalizing value with
  | zero => rfl
  | succ n ih => rw [Digest.hexDigits, List.length_append, ih, List.length_singleton]

theorem rankingBase_eq (source name : String) : ∃ digits : List Char,
    rankingBase source name = "__rn_" ++ String.ofList digits ∧ digits.length = 16 ∧
      ∀ c ∈ digits, c ∈ hexAlphabet :=
  ⟨_, rfl, length_hexDigits _ _, fun _ => mem_hexAlphabet_of_mem_hexDigits⟩

theorem rankingWord_base (source name : String) : RankingWord (rankingBase source name) := by
  obtain ⟨digits, base, -, hex⟩ := rankingBase_eq source name
  have text : (rankingBase source name).toList = '_' :: '_' :: 'r' :: 'n' :: '_' :: digits := by
    rw [base, String.toList_append, String.toList_ofList (l := digits)]
    rfl
  constructor
  · rw [text, List.head?_cons]
  · simp only [text, List.forall_mem_cons]
    refine ⟨by decide, by decide, by decide, by decide, by decide, ?_⟩
    intro c hc
    simp [rankingAlphabet, hex c hc]

theorem length_rankingBase (source name : String) : (rankingBase source name).length = 21 := by
  obtain ⟨digits, base, length, -⟩ := rankingBase_eq source name
  rw [base, String.length_append, String.length_ofList (l := digits), length]
  rfl

theorem RankingWord.numbered {base : String} (h : RankingWord base) (n : Nat) :
    RankingWord (numbered base n) := by
  have text : (Query.numbered base n).toList = base.toList ++ '_' :: (toString n).toList := by
    simp [Query.numbered]
  constructor
  · rw [text, List.head?_append, h.start]
    rfl
  · rw [text, List.forall_mem_append, List.forall_mem_cons]
    refine ⟨h.letters, by decide, ?_⟩
    intro c hc
    exact mem_rankingAlphabet_of_isDigit (isDigit_of_mem_toString hc)

theorem length_numbered (base : String) {n : Nat} (h : n < 2 ^ 31) :
    (numbered base n).length ≤ base.length + 11 := by
  have digits : (toString n).length ≤ 10 := by
    rw [Nat.toString_eq_ofList_toDigits, String.length_ofList]
    exact (Nat.length_toDigits_le_iff (by decide) (by decide)).2 (by omega)
  have mark : "_".length = 1 := rfl
  rw [numbered, String.length_append, String.length_append, mark]
  omega

/-! ### Candidates as names -/

namespace RankingWord

variable {word : String} (h : RankingWord word)

include h

theorem of_all {p : Char → Bool} (all : rankingAlphabet.all p = true) {c : Char}
    (hc : c ∈ word.toList) : p c = true :=
  List.all_eq_true.1 all c (h.letters c hc)

theorem isReserved_eq_false (d : Dialect) : d.isReserved word = false := by
  have keywords : ∀ d : Dialect, (d.keywords.toList.all fun k => k.toList.head? != some '_') = true := by
    rintro (_ | _) <;> decide +kernel
  rw [Bool.eq_false_iff]
  intro reserved
  have listed := Array.mem_toList_iff.2 (Dialect.mem_keywords_of_isReserved reserved)
  have other := List.all_eq_true.1 (keywords d) _ listed
  rw [String.toList_map, List.head?_map, h.start] at other
  exact absurd other (by decide)

theorem needsQuoting_eq_false (d : Dialect) : d.needsQuoting word = false := by
  have letters : ∀ d : Dialect, rankingAlphabet.all d.isPlainRest = true := by
    rintro (_ | _) <;> decide +kernel
  have plain : d.isPlainWord word.toList = true := by
    obtain ⟨rest, text⟩ := List.head?_eq_some_iff.1 h.start
    rw [text, Dialect.isPlainWord, Bool.and_eq_true, List.all_eq_true]
    refine ⟨by cases d <;> rfl, ?_⟩
    intro c hc
    exact h.of_all (letters d) (by rw [text]; exact List.mem_cons_of_mem _ hc)
  rw [Dialect.needsQuoting, plain, h.isReserved_eq_false]
  rfl

theorem quote_eq (d : Dialect) : d.quote word = word := by
  rw [Dialect.quote, h.needsQuoting_eq_false, if_neg Bool.false_ne_true]

theorem utf8ByteSize_eq_length : word.utf8ByteSize = word.length := by
  have size : ∀ c ∈ word.toList, c.utf8Size = 1 := by
    intro c hc
    simpa using h.of_all (p := fun c => c.utf8Size == 1) (by decide +kernel) hc
  rw [← String.ofList_toList (s := word), String.utf8ByteSize_ofList, String.length_ofList]
  generalize word.toList = cs at size
  induction cs with
  | nil => rfl
  | cons c rest ih =>
    obtain ⟨one, others⟩ := List.forall_mem_cons.1 size
    rw [String.utf8Len_cons, ih others, one, List.length_cons]

theorem printable : word.toList.any Text.isControl = false := by
  rw [List.any_eq_false]
  intro c hc
  simpa using h.of_all (p := fun c => !Text.isControl c) (by decide +kernel) hc

theorem isLegal (d : Dialect) (short : word.length ≤ 63) : d.isLegal word = true := by
  have filled : word.isEmpty = false := by
    rw [Bool.eq_false_iff]
    intro empty
    rw [String.isEmpty_iff.1 empty] at h
    cases h.start
  have length : d.identifierLength word ≤ d.maxIdentifierLength := by
    cases d with
    | bigQuery => exact short.trans (by decide)
    | postgreSql => exact h.utf8ByteSize_eq_length.trans_le short
  simp [Dialect.isLegal, filled, length, h.printable]

/-- A name that means the column of the word agrees with it up to the case of `A` to `Z`. -/
theorem eqIgnoringAsciiCase_of_sameColumn {d : Dialect} {label : String}
    (same : d.sameColumn label word = true) : Text.eqIgnoringAsciiCase label word = true := by
  have within : ∀ c ∈ word.toList, c.toNat < 128 ∧ c.toLower ≠ 'k' ∧ c.toLower ≠ 'i' := by
    intro c hc
    simpa [and_assoc] using h.of_all
      (p := fun c => c.toNat < 128 && c.toLower != 'k' && c.toLower != 'i') (by decide +kernel) hc
  rw [Dialect.sameColumn_iff] at same
  cases d with
  | bigQuery => exact (Text.lowercase_eq_iff_of_ascii within label).1 same
  | postgreSql => exact (Text.eqIgnoringAsciiCase_iff label word).2 (congrArg _ same)

end RankingWord

/-! ### The search -/

/-- Some output name is the candidate in some ASCII case. -/
def Taken (u : Deduplication) (candidate : String) : Prop :=
  ∃ label ∈ u.select.names, Text.eqIgnoringAsciiCase label candidate = true

theorem any_lower_iff_taken (u : Deduplication) (candidate : String) :
    (u.select.names.any fun label =>
      label.toList.map Char.toLower == candidate.toList.map Char.toLower) = true ↔ Taken u candidate := by
  simp only [Taken, Text.eqIgnoringAsciiCase_iff, ← String.toList_inj, String.toList_map,
    List.any_eq_true, beq_iff_eq]

instance (u : Deduplication) (candidate : String) : Decidable (Taken u candidate) :=
  decidable_of_iff _ (any_lower_iff_taken u candidate)

/-- Trying one number after the other from `n` on yields the name. The number has 32 bits and a sign, so
counting on is not defined behind the largest. -/
inductive CountsTo (u : Deduplication) (base : String) : Nat → String → Prop
  | stop {n : Nat} (free : ¬Taken u (numbered base n)) : CountsTo u base n (numbered base n)
  | next {n : Nat} {found : String} (taken : Taken u (numbered base n)) (room : n + 1 < 2 ^ 31)
      (rest : CountsTo u base (n + 1) found) : CountsTo u base n found

/-- The search tries the base name and then counts from one, without a bound of its own. -/
inductive SearchEnds (u : Deduplication) (base : String) : String → Prop
  | atOnce (free : ¬Taken u base) : SearchEnds u base base
  | counting {found : String} (taken : Taken u base) (counts : CountsTo u base 1 found) :
      SearchEnds u base found

theorem countsTo_iff {u : Deduplication} {base : String} {n last : Nat} (small : last < 2 ^ 31)
    (free : ¬Taken u (numbered base last)) (le : n ≤ last)
    (taken : ∀ m, n ≤ m → m < last → Taken u (numbered base m)) (found : String) :
    CountsTo u base n found ↔ found = numbered base last := by
  -- from the free number downwards: in front of it every number is taken, so counting goes on
  induction le using Nat.decreasingInduction with
  | self =>
    constructor
    · intro counts
      cases counts with
      | stop => rfl
      | next held => exact absurd held free
    · rintro rfl
      exact .stop free
  | of_succ n lt ih =>
    have held := taken n (Nat.le_refl n) lt
    have later := ih fun m hm => taken m (by omega)
    constructor
    · intro counts
      cases counts with
      | stop stops => exact absurd held stops
      | next _ _ rest => exact later.1 rest
    · intro same
      exact .next held (by omega) (later.2 same)

theorem RankingWord.map_toLower_eq {word : String} (h : RankingWord word) :
    word.map Char.toLower = word := by
  rw [← String.toList_inj, String.toList_map]
  refine (List.map_congr_left ?_).trans (List.map_id _)
  intro c hc
  simpa using h.of_all (p := fun c => c.toLower == c) (by decide +kernel) hc

theorem RankingWord.taken_iff {u : Deduplication} {word : String} (h : RankingWord word) :
    Taken u word ↔ word ∈ u.select.names.map fun label => label.map Char.toLower := by
  simp only [Taken, Text.eqIgnoringAsciiCase_iff, h.map_toLower_eq, List.mem_map]

theorem numbered_injective (base : String) : Function.Injective (numbered base) := by
  intro m n same
  have texts := congrArg String.toList same
  simp only [numbered, String.toList_append, List.append_cancel_left_eq,
    Nat.toString_eq_ofList_toDigits, String.toList_ofList] at texts
  have values := congrArg (Nat.ofDigitChars 10 · 0) texts
  simpa only [Nat.ofDigitChars_ten_toDigits] using values

theorem rankingCandidates_eq (base : String) (count : Nat) :
    rankingCandidates base count = base :: (List.range' 1 count).map (numbered base) := rfl

theorem nodup_rankingCandidates (base : String) (count : Nat) :
    (rankingCandidates base count).Nodup := by
  rw [rankingCandidates_eq, List.nodup_cons]
  constructor
  · intro among
    obtain ⟨n, -, same⟩ := List.mem_map.1 among
    have lengths := congrArg String.length same
    have mark : "_".length = 1 := rfl
    rw [numbered, String.length_append, String.length_append, mark] at lengths
    omega
  · exact List.Nodup.map (numbered_injective base) (List.nodup_range' ..)

/-- There is one candidate more than there are output names, and no output name takes two. -/
theorem exists_free_candidate (u : Deduplication) {base : String} (h : RankingWord base) :
    ∃ candidate ∈ rankingCandidates base u.select.length, ¬Taken u candidate := by
  by_contra none
  push Not at none
  have words : ∀ candidate ∈ rankingCandidates base u.select.length, RankingWord candidate := by
    rw [rankingCandidates_eq, List.forall_mem_cons, List.forall_mem_map]
    exact ⟨h, fun n _ => h.numbered n⟩
  -- candidates have no capitals, so each of them would be the lowercase form of its output name
  have within : rankingCandidates base u.select.length ⊆
      u.select.names.map fun label => label.map Char.toLower := by
    intro candidate among
    exact (words candidate among).taken_iff.1 (none candidate among)
  have fewer := (List.subperm_of_subset (nodup_rankingCandidates base _) within).length_le
  simp only [rankingCandidates, SelectList.names, SelectList.length, List.length_cons, List.length_map,
    List.length_range'] at fewer
  omega

section Column

variable {u : Deduplication} {source name : String}

theorem any_names_eq (candidate : String) :
    (u.select.names.any fun label => Text.eqIgnoringAsciiCase label candidate) =
      decide (Taken u candidate) := by
  rw [Bool.eq_iff_iff, List.any_eq_true, decide_eq_true_eq]
  rfl

theorem rankingColumn_of_not_taken (free : ¬Taken u (rankingBase source name)) :
    rankingColumn u source name = rankingBase source name := by
  simp [rankingColumn, rankingCandidates, any_names_eq, free]

theorem exists_rankingColumn_of_taken (taken : Taken u (rankingBase source name)) :
    ∃ n, 1 ≤ n ∧ n ≤ u.select.length ∧
      rankingColumn u source name = numbered (rankingBase source name) n ∧
      ¬Taken u (numbered (rankingBase source name) n) ∧
      ∀ m, 1 ≤ m → m < n → Taken u (numbered (rankingBase source name) m) := by
  have column : rankingColumn u source name = (((List.range' 1 u.select.length).find? fun n =>
      !decide (Taken u (numbered (rankingBase source name) n))).map
        (numbered (rankingBase source name))).getD (rankingBase source name) := by
    simp only [rankingColumn, rankingCandidates_eq, any_names_eq, List.find?_cons, List.find?_map, taken,
      decide_true, Bool.not_true]
    rfl
  cases found : (List.range' 1 u.select.length).find? fun n =>
      !decide (Taken u (numbered (rankingBase source name) n)) with
  | none =>
    -- one of the candidates is free, and it is not the base name
    obtain ⟨candidate, among, free⟩ := exists_free_candidate u (rankingWord_base source name)
    rw [rankingCandidates_eq, List.mem_cons, List.mem_map] at among
    rcases among with rfl | ⟨n, hn, rfl⟩
    · exact absurd taken free
    · have none := List.find?_eq_none.1 found n hn
      simp only [Bool.not_eq_true', decide_eq_false_iff_not, not_not] at none
      exact absurd none free
  | some n =>
    obtain ⟨free, range, earlier⟩ := List.find?_range'_eq_some.1 found
    simp only [Bool.not_eq_true', decide_eq_false_iff_not, Bool.not_not, decide_eq_true_eq] at free earlier
    rw [List.mem_range'_1] at range
    exact ⟨n, range.1, by omega, by rw [column, found]; rfl, free, earlier⟩

theorem searchEnds_iff (few : u.select.length < 2 ^ 31 - 1) (found : String) :
    SearchEnds u (rankingBase source name) found ↔ found = rankingColumn u source name := by
  by_cases taken : Taken u (rankingBase source name)
  · obtain ⟨n, one, most, column, free, least⟩ := exists_rankingColumn_of_taken taken
    have counts := countsTo_iff (by omega) free one least found
    rw [column, ← counts]
    constructor
    · intro ends
      cases ends with
      | atOnce free => exact absurd taken free
      | counting _ counts => exact counts
    · exact .counting taken
  · rw [rankingColumn_of_not_taken taken]
    constructor
    · intro ends
      cases ends with
      | atOnce => rfl
      | counting held => exact absurd held taken
    · rintro rfl
      exact .atOnce taken

theorem rankingColumn_cases {P : String → Prop}
    (base : ¬Taken u (rankingBase source name) → P (rankingBase source name))
    (counted : ∀ n ≤ u.select.length, ¬Taken u (numbered (rankingBase source name) n) →
      P (numbered (rankingBase source name) n)) : P (rankingColumn u source name) := by
  by_cases taken : Taken u (rankingBase source name)
  · obtain ⟨n, -, most, column, free, -⟩ := exists_rankingColumn_of_taken taken
    rw [column]
    exact counted n most free
  · rw [rankingColumn_of_not_taken taken]
    exact base taken

theorem not_taken_rankingColumn : ¬Taken u (rankingColumn u source name) :=
  rankingColumn_cases (P := fun column => ¬Taken u column) id fun _ _ free => free

theorem rankingWord_rankingColumn (u : Deduplication) (source name : String) :
    RankingWord (rankingColumn u source name) := by
  have base := rankingWord_base source name
  exact rankingColumn_cases (fun _ => base) fun n _ _ => base.numbered n

theorem length_rankingColumn (few : u.select.length < 2 ^ 31 - 1) :
    (rankingColumn u source name).length ≤ 32 := by
  have base := length_rankingBase source name
  refine rankingColumn_cases (P := fun column => column.length ≤ 32) (fun _ => by omega) ?_
  intro n most _
  have length := length_numbered (rankingBase source name) (n := n) (by omega)
  omega

theorem sameColumn_rankingColumn {d : Dialect} {label : String} (among : label ∈ u.select.names) :
    d.sameColumn label (rankingColumn u source name) = false := by
  rw [Bool.eq_false_iff]
  intro same
  have word := rankingWord_rankingColumn u source name
  exact not_taken_rankingColumn ⟨label, among, word.eqIgnoringAsciiCase_of_sameColumn same⟩

end Column

/-! ### The statement around it -/

/-- Expressions and names of the items of the inner select. -/
def rankedItems (u : Deduplication) (source name : String) : List (String × String) :=
  u.select.entries.map (fun entry => (entry.2.text, entry.1)) ++
    [("ROW_NUMBER() OVER (" ++ windowSpec u ++ ")", rankingColumn u source name)]

/-- The text is one name, and it means exactly one of the columns. -/
def RefersToOne (d : Dialect) (text : String) (columns : List String) : Prop :=
  ∃ name, d.nameOf? text = some name ∧ (columns.countP fun column => d.sameColumn column name) = 1

theorem deduplicated_eq (d : Dialect) (u : Deduplication) (source name : String) :
    deduplicated d u source name =
      (if u.select.names = [] then "SELECT"
        else "SELECT " ++ ", ".intercalate
          (u.select.names.map fun label => d.quote label ++ " AS " ++ d.quote label)) ++
        " FROM (SELECT " ++ ", ".intercalate
          ((rankedItems u source name).map fun item => item.1 ++ " AS " ++ d.quote item.2) ++
        " FROM (" ++ source ++ ") AS " ++ d.quote name ++ ") AS " ++ d.quote name ++
        " WHERE " ++ d.quote (rankingColumn u source name) ++ " = 1" := by
  have close : ")" ++ " AS " = ") AS " := rfl
  have number : aliased d ("ROW_NUMBER() OVER (" ++ windowSpec u ++ ")") (rankingColumn u source name) =
      "ROW_NUMBER() OVER (" ++ windowSpec u ++ ") AS " ++ d.quote (rankingColumn u source name) := by
    rw [aliased, ← close, ← String.append_assoc]
  have inner : u.select.entries.map (entryItem d) ++ ["ROW_NUMBER() OVER (" ++ windowSpec u ++
      ") AS " ++ d.quote (rankingColumn u source name)] =
      (rankedItems u source name).map fun item => item.1 ++ " AS " ++ d.quote item.2 := by
    rw [rankedItems, List.map_append, List.map_map, List.map_singleton, ← number]
    rfl
  have outer : selectItems (u.select.names.map fun label => aliased d (d.quote label) label) =
      if u.select.names = [] then "SELECT" else "SELECT " ++ ", ".intercalate
        (u.select.names.map fun label => d.quote label ++ " AS " ++ d.quote label) := by
    split
    · rename_i empty
      rw [empty]
      rfl
    · rename_i some
      exact selectItems_of_ne_nil (by simpa using some)
  rw [deduplicated, outer, inner, selectItems_of_ne_nil (by simp [rankedItems]), derivedTable, derivedTable,
    ← String.toList_inj]
  simp

theorem names_rankedItems (u : Deduplication) (source name : String) :
    (rankedItems u source name).map Prod.snd = u.select.names ++ [rankingColumn u source name] := by
  simp [rankedItems, SelectList.names, Function.comp_def]

theorem refersToOne_quote {d : Dialect} {columns : List String} {label : String}
    (distinct : columns.Pairwise fun a b => d.sameColumn a b = false) (among : label ∈ columns) :
    RefersToOne d (d.quote label) columns := by
  have keys : (columns.map d.columnKey).Nodup := by
    rw [List.Nodup, List.pairwise_map]
    exact distinct.imp (d.sameColumn_eq_false_iff _ _).1
  have one := List.count_eq_one_of_mem keys (List.mem_map_of_mem among)
  rw [List.count, List.countP_map] at one
  refine ⟨label, d.nameOf?_quote label, ?_⟩
  rw [← one]
  refine List.countP_congr ?_
  intro column _
  rw [Dialect.sameColumn_iff, Function.comp_apply, beq_iff_eq]

/-- The search for the ranking column ends, and counts no further than to the number of output names. What
it finds is legal, needs no quotes and means none of the output columns. The inner select therefore has
distinct columns, and each reference of the outer one means exactly one of them. -/
theorem rankingColumn_search_ends_apart (d : Dialect) (u : Deduplication) (source name : String)
    (few : u.select.length < 2 ^ 31 - 1) :
    (∃ digits : List Char, rankingBase source name = "__rn_" ++ String.ofList digits ∧
      digits.length = 16 ∧ ∀ c ∈ digits, c ∈ hexAlphabet) ∧
    (∀ found, SearchEnds u (rankingBase source name) found ↔ found = rankingColumn u source name) ∧
    (¬Taken u (rankingBase source name) → rankingColumn u source name = rankingBase source name) ∧
    (Taken u (rankingBase source name) → ∃ n, 1 ≤ n ∧ n ≤ u.select.length ∧
      rankingColumn u source name = numbered (rankingBase source name) n ∧
      ¬Taken u (numbered (rankingBase source name) n) ∧
      ∀ m, 1 ≤ m → m < n → Taken u (numbered (rankingBase source name) m)) ∧
    d.isLegal (rankingColumn u source name) = true ∧
    d.quote (rankingColumn u source name) = rankingColumn u source name ∧
    (∀ label ∈ u.select.names, d.sameColumn label (rankingColumn u source name) = false) ∧
    deduplicated d u source name =
      (if u.select.names = [] then "SELECT"
        else "SELECT " ++ ", ".intercalate
          (u.select.names.map fun label => d.quote label ++ " AS " ++ d.quote label)) ++
        " FROM (SELECT " ++ ", ".intercalate
          ((rankedItems u source name).map fun item => item.1 ++ " AS " ++ d.quote item.2) ++
        " FROM (" ++ source ++ ") AS " ++ d.quote name ++ ") AS " ++ d.quote name ++
        " WHERE " ++ d.quote (rankingColumn u source name) ++ " = 1" ∧
    (rankedItems u source name).map Prod.snd = u.select.names ++ [rankingColumn u source name] ∧
    ((Operation.deduplicate u).acceptable d = true →
      ((rankedItems u source name).map Prod.snd).Pairwise (fun a b => d.sameColumn a b = false) ∧
      (∀ label ∈ u.select.names,
        RefersToOne d (d.quote label) ((rankedItems u source name).map Prod.snd)) ∧
      RefersToOne d (d.quote (rankingColumn u source name))
        ((rankedItems u source name).map Prod.snd)) := by
  have word := rankingWord_rankingColumn u source name
  have short : (rankingColumn u source name).length ≤ 63 := (length_rankingColumn few).trans (by decide)
  have apart : ∀ label ∈ u.select.names, d.sameColumn label (rankingColumn u source name) = false :=
    fun label among => sameColumn_rankingColumn among
  refine ⟨rankingBase_eq source name, searchEnds_iff few, rankingColumn_of_not_taken,
    exists_rankingColumn_of_taken, word.isLegal d short, word.quote_eq d, apart,
    deduplicated_eq d u source name, names_rankedItems u source name, ?_⟩
  intro accepted
  have distinct : (u.select.names ++ [rankingColumn u source name]).Pairwise
      fun a b => d.sameColumn a b = false := by
    rw [List.pairwise_append]
    refine ⟨((Operation.acceptableList_iff d _ _).1 accepted).2.2, List.pairwise_singleton _ _, ?_⟩
    intro label among column last
    rw [List.mem_singleton.1 last]
    exact apart label among
  rw [names_rankedItems]
  refine ⟨distinct, ?_, refersToOne_quote distinct (by simp)⟩
  intro label among
  exact refersToOne_quote distinct (List.mem_append_left _ among)

/-- The first output name is the base name in capitals, and the last is the first candidate behind it. -/
theorem rankingColumn_search_ends_apart_capitals : ∃ u : Deduplication,
    u.select.names = ["__RN_20E6E9DDEB6E2600", "id", "__rn_20e6e9ddeb6e2600_1"] ∧
    u.select.length < 2 ^ 31 - 1 ∧ (Operation.deduplicate u).acceptable .bigQuery = true ∧
    rankingColumn u "SELECT id AS id FROM shop.sales" "shop" = "__rn_20e6e9ddeb6e2600_2" ∧
    RefersToOne .bigQuery "__rn_20e6e9ddeb6e2600_2"
      ["__RN_20E6E9DDEB6E2600", "id", "__rn_20e6e9ddeb6e2600_1", "__rn_20e6e9ddeb6e2600_2"] := by
  let id : Expr := .ofColumn .bigQuery "id"
  let u : Deduplication :=
    ⟨⟨[("__RN_20E6E9DDEB6E2600", id), ("id", id), ("__rn_20e6e9ddeb6e2600_1", id)]⟩, [id], []⟩
  have few : u.select.length < 2 ^ 31 - 1 := by decide
  have accepted : (Operation.deduplicate u).acceptable .bigQuery = true := by decide +kernel
  have base : rankingBase "SELECT id AS id FROM shop.sales" "shop" = "__rn_20e6e9ddeb6e2600" := by
    decide +kernel
  obtain ⟨-, search, -, -, -, bare, -, -, names, statement⟩ :=
    rankingColumn_search_ends_apart .bigQuery u "SELECT id AS id FROM shop.sales" "shop" few
  have ends : SearchEnds u "__rn_20e6e9ddeb6e2600" (numbered "__rn_20e6e9ddeb6e2600" 2) :=
    .counting (by decide +kernel) (.next (by decide +kernel) (by decide) (.stop (by decide +kernel)))
  rw [base] at search
  have column := (search _).1 ends
  obtain ⟨-, -, condition⟩ := statement accepted
  rw [bare, names, ← column] at condition
  exact ⟨u, rfl, few, accepted, column.symm, condition⟩

end LayeredSql.Query
