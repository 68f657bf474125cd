import LayeredSql.Proofs.NameReading
import Mathlib.Data.List.TakeWhile

/-!
# Quoting of names

A text that is one name and nothing else is read as that name. Quoting is a right inverse of this
reading, so no two names are written alike; and it is minimal: a name is left bare exactly when the bare
word is already read as the name.

A bare word is read as itself when it has the characters of a word, is not reserved and is not changed by
the folding of the dialect, which is how the three conditions of `needsQuoting` come about. A text between
quotes is longer than the name that it is read as, so it never means itself.
-/

namespace LayeredSql.Dialect

open Fragment

/-- The name that the whole text means. -/
def nameOf? (d : Dialect) (text : String) : Option String :=
  match d.readName text.toList with
  | some (name, []) => some name
  | _ => none

theorem nameOf?_eq_some_iff {d : Dialect} {text name : String} :
    d.nameOf? text = some name ↔ d.readName text.toList = some (name, []) := by
  unfold nameOf?
  split
  · rename_i other hr
    simp [hr]
  · rename_i other
    refine iff_of_false (by simp) ?_
    intro hr
    exact other name hr

/-! ### What was written is read -/

theorem nameOf?_quote (d : Dialect) (name : String) : d.nameOf? (d.quote name) = some name := by
  have read := readName_quote (endsName_nil d) name
  rw [List.append_nil] at read
  exact nameOf?_eq_some_iff.2 read

theorem nameOf?_forceQuote (d : Dialect) (name : String) :
    d.nameOf? (d.forceQuote name) = some name := by
  have read := readName_forceQuote (endsName_nil d) name
  rw [List.append_nil] at read
  exact nameOf?_eq_some_iff.2 read

theorem injective_of_nameOf? {d : Dialect} {write : String → String}
    (h : ∀ name, d.nameOf? (write name) = some name) : Function.Injective write := by
  intro a b same
  have both : some a = some b := by rw [← h a, ← h b, same]
  exact Option.some.inj both

/-- One replacement after the other puts in the escapes of BigQuery, if backslashes come first. -/
theorem escape_eq_replacements (cs : List Char) :
    cs.flatMap bigQuery.escapeChar =
      (cs.flatMap fun c => if c = '\\' then ['\\', '\\'] else [c]).flatMap
        fun c => if c = '\x60' then ['\\', '\x60'] else [c] := by
  rw [List.flatMap_assoc]
  refine congrArg (fun f => cs.flatMap f) (funext fun c => ?_)
  by_cases backslash : c = '\\'
  · subst backslash
    rfl
  · by_cases backtick : c = '\x60'
    · subst backtick
      rfl
    · simp [escapeChar, backslash, backtick]

-- the other way round, the backslash in front of a backtick is escaped as well
example : (("\x60".toList.flatMap fun c => if c = '\x60' then ['\\', '\x60'] else [c]).flatMap
    fun c => if c = '\\' then ['\\', '\\'] else [c]) ≠
      "\x60".toList.flatMap bigQuery.escapeChar := by
  decide

/-! ### Words that mean themselves -/

/-- The character that one of a bare word means. -/
def foldChar : Dialect → Char → Char
  | bigQuery, c => c
  | postgreSql, c => c.toLower

theorem foldBare_eq (d : Dialect) (word : List Char) :
    d.foldBare word = String.ofList (word.map d.foldChar) := by
  cases d with
  | bigQuery => exact congrArg String.ofList (List.map_id word).symm
  | postgreSql => rfl

theorem isLower_of_toLower_eq {c : Char} (h : c.toLower = c) : c.isLower = c.isAlpha := by
  have small : ¬(c.val ≥ 'A'.val ∧ c.val ≤ 'Z'.val) := by
    intro within
    have lower : c.toLower.val = c.val + ('a'.val - 'A'.val) := congrArg Char.val (dif_pos within)
    rw [h] at lower
    simp at lower
  show c.isLower = (c.isUpper || c.isLower)
  rw [show c.isUpper = false from decide_eq_false small, Bool.false_or]

theorem isPlainStart_of_isBareStart {d : Dialect} {c : Char} (h : isBareStart c = true)
    (hf : d.foldChar c = c) : d.isPlainStart c = true := by
  cases d with
  | bigQuery => exact h
  | postgreSql =>
    rw [isPlainStart, isLower_of_toLower_eq hf]
    exact h

theorem isPlainRest_of_isBareRest {d : Dialect} {c : Char} (h : d.isBareRest c = true)
    (hf : d.foldChar c = c) : d.isPlainRest c = true := by
  cases d with
  | bigQuery => exact h
  | postgreSql =>
    rw [isPlainRest, isLower_of_toLower_eq hf]
    exact h

theorem needsQuoting_eq_false_of_isBareWord {d : Dialect} {name : String}
    (hw : d.isBareWord name.toList = true) (hf : d.foldBare name.toList = name) :
    d.needsQuoting name = false := by
  have kept : ∀ c ∈ name.toList, d.foldChar c = c := by
    have same : name.toList.map d.foldChar = name.toList.map id := by
      rw [List.map_id, ← String.toList_ofList (l := name.toList.map d.foldChar), ← foldBare_eq, hf]
    exact List.map_inj_left.1 same
  simp only [isBareWord, Bool.and_eq_true, Bool.not_eq_true', String.ofList_toList] at hw
  obtain ⟨⟨start, all⟩, free⟩ := hw
  have plain : d.isPlainWord name.toList = true := by
    cases hs : name.toList with
    | nil =>
      rw [hs] at start
      cases start
    | cons c rest =>
      rw [hs] at start all kept
      rw [isPlainWord, Bool.and_eq_true, List.all_eq_true]
      refine ⟨isPlainStart_of_isBareStart start (kept c (by simp)), ?_⟩
      intro x hx
      have member : x ∈ c :: rest := List.mem_cons_of_mem c hx
      exact isPlainRest_of_isBareRest (List.all_eq_true.1 all x member) (kept x member)
  rw [needsQuoting, plain, free]
  rfl

theorem ne_of_readQuoted {d : Dialect} {c : Char} {cs name rest : List Char}
    (h : d.readQuoted cs = some (name, rest)) : name ≠ c :: cs := by
  rintro rfl
  have shorter := length_readQuoted_lt h
  rw [List.length_cons] at shorter
  omega

theorem needsQuoting_eq_false_iff (d : Dialect) (name : String) :
    d.needsQuoting name = false ↔ d.nameOf? name = some name := by
  constructor
  · intro bare
    have read := nameOf?_quote d name
    rw [quote, if_neg (by simp [bare])] at read
    exact read
  · intro read
    rw [nameOf?_eq_some_iff] at read
    cases hs : name.toList with
    | nil =>
      rw [hs] at read
      cases read
    | cons c cs =>
      rw [hs, readName] at read
      split at read
      · -- the name would be longer than the text between the quotes
        obtain ⟨⟨inner, last⟩, hr, heq⟩ := Option.map_eq_some_iff.1 read
        have text : String.ofList inner = name := congrArg Prod.fst heq
        rw [← text, String.toList_ofList] at hs
        exact absurd hs (ne_of_readQuoted hr)
      · rw [← hs, readBare] at read
        split at read
        · rename_i word
          simp only [Option.some.injEq, Prod.mk.injEq] at read
          have whole : name.toList.takeWhile d.isBareRest = name.toList := by
            rw [List.takeWhile_eq_self_iff]
            exact List.dropWhile_eq_nil_iff.1 read.2
          rw [whole] at read word
          exact needsQuoting_eq_false_of_isBareWord word read.1
        · cases read

/-- Both ways of quoting are read back as the name they were given, whatever its characters, so they are
injective; and the quotes are left out exactly where the bare word means the name. -/
theorem quoting_reads_back (d : Dialect) :
    (∀ name, d.nameOf? (d.quote name) = some name ∧ d.nameOf? (d.forceQuote name) = some name ∧
      (d.needsQuoting name = false ↔ d.nameOf? name = some name)) ∧
    Function.Injective d.quote ∧ Function.Injective d.forceQuote := by
  refine ⟨?_, injective_of_nameOf? (nameOf?_quote d), injective_of_nameOf? (nameOf?_forceQuote d)⟩
  intro name
  exact ⟨nameOf?_quote d name, nameOf?_forceQuote d name, needsQuoting_eq_false_iff d name⟩

end LayeredSql.Dialect
