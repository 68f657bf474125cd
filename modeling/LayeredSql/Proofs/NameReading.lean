import LayeredSql.Proofs.Reading
import Mathlib.Tactic.Tauto

/-!
# Names read back from a statement

A name stands in a statement bare or between quotes. Here one name is taken off the front of a text by
the rules of the dialect alone: quoted text runs to its first closing quote that is not escaped, a bare
word is as long as it can be and must not be reserved, and PostgreSQL folds bare words to lowercase.
What was written for a name is read back as that name, whatever characters it has, as long as the text
behind it cannot be taken for a part of it.
-/

namespace LayeredSql.Dialect

open Fragment

/-! ### Quoted names -/

/-- Inside quotes the two characters stand for the second of them. -/
def isPair : Dialect → Char → Char → Bool
  | bigQuery, c, _ => c = '\\'
  | postgreSql, c, e => c = '"' && e = '"'

/-- The name behind its opening quote, and what follows its closing quote. -/
def readQuoted (d : Dialect) : List Char → Option (List Char × List Char)
  | [] => none
  | [c] => if c = d.identifierQuote then some ([], []) else none
  | c :: e :: cs =>
    if d.isPair c e then (d.readQuoted cs).map (Prod.map (List.cons e) id)
    else if c = d.identifierQuote then some ([], e :: cs)
    else (d.readQuoted (e :: cs)).map (Prod.map (List.cons c) id)

theorem length_readQuoted_lt {d : Dialect} {cs name rest : List Char}
    (h : d.readQuoted cs = some (name, rest)) : name.length + rest.length < cs.length := by
  fun_induction readQuoted d cs generalizing name with
  | case1 => cases h
  | case2 =>
    cases h
    exact Nat.zero_lt_one
  | case3 c hc => cases h
  | case4 c e cs pair ih =>
    obtain ⟨⟨inner, last⟩, hr, heq⟩ := Option.map_eq_some_iff.1 h
    cases heq
    have shorter := ih hr
    simp only [id_eq, List.length_cons] at shorter ⊢
    omega
  | case5 e cs pair =>
    cases h
    simp only [List.length_cons, List.length_nil]
    omega
  | case6 c e cs pair hc ih =>
    obtain ⟨⟨inner, last⟩, hr, heq⟩ := Option.map_eq_some_iff.1 h
    cases heq
    have shorter := ih hr
    simp only [id_eq, List.length_cons] at shorter ⊢
    omega

/-- A character that is neither an escape nor a quote stands for itself, whatever follows. -/
theorem readQuoted_cons {d : Dialect} {c : Char} (hp : ∀ e, d.isPair c e = false)
    (hq : c ≠ d.identifierQuote) (cs : List Char) :
    d.readQuoted (c :: cs) = (d.readQuoted cs).map (Prod.map (List.cons c) id) := by
  cases cs with
  | nil =>
    have none : d.readQuoted [c] = none := by rw [readQuoted, if_neg hq]
    rw [none, readQuoted, Option.map_none]
  | cons e cs => rw [readQuoted, if_neg (by simp [hp e]), if_neg hq]

theorem readQuoted_close {d : Dialect} {rest : List Char}
    (h : ∀ c ∈ rest.head?, c ≠ d.identifierQuote) :
    d.readQuoted (d.identifierQuote :: rest) = some ([], rest) := by
  cases rest with
  | nil => rw [readQuoted, if_pos rfl]
  | cons e rest =>
    have other : e ≠ d.identifierQuote := h e (by simp)
    have single : d.isPair d.identifierQuote e = false := by
      cases d with
      | bigQuery => rfl
      | postgreSql => simpa [isPair, identifierQuote] using other
    rw [readQuoted, if_neg (by simp [single]), if_pos rfl]

/-- A character that needs an escape is written as a pair, every other one as itself. -/
theorem readQuoted_escapeChar (d : Dialect) (c : Char) (cs : List Char) :
    d.readQuoted (d.escapeChar c ++ cs) = (d.readQuoted cs).map (Prod.map (List.cons c) id) := by
  cases d with
  | bigQuery =>
    by_cases hc : c = '\\' ∨ c = '\x60'
    · rw [escapeChar, if_pos hc]
      rfl
    · rw [escapeChar, if_neg hc]
      rw [not_or] at hc
      exact readQuoted_cons (fun e => by simpa [isPair] using hc.1) hc.2 cs
  | postgreSql =>
    by_cases hc : c = '"'
    · rw [escapeChar, if_pos hc, hc]
      rfl
    · rw [escapeChar, if_neg hc]
      exact readQuoted_cons (fun e => by simp [isPair, hc]) hc cs

theorem readQuoted_escaped {d : Dialect} {rest : List Char}
    (h : ∀ c ∈ rest.head?, c ≠ d.identifierQuote) (name : List Char) :
    d.readQuoted (name.flatMap d.escapeChar ++ d.identifierQuote :: rest) = some (name, rest) := by
  induction name with
  | nil => exact readQuoted_close h
  | cons c name ih =>
    rw [List.flatMap_cons, List.append_assoc, readQuoted_escapeChar, ih]
    rfl

/-! ### Bare words -/

def isBareStart (c : Char) : Bool := c.isAlpha || c = '_'

def isBareRest : Dialect → Char → Bool
  | bigQuery, c => c.isAlphanum || c = '_'
  | postgreSql, c => c.isAlphanum || c = '_' || c = '$'

/-- The name that a bare word means. -/
def foldBare : Dialect → List Char → String
  | bigQuery, word => String.ofList word
  | postgreSql, word => String.ofList (word.map Char.toLower)

/-- A word that can stand bare. -/
def isBareWord (d : Dialect) (word : List Char) : Bool :=
  word.head?.any isBareStart && word.all d.isBareRest && !d.isReserved (String.ofList word)

/-- The longest word in front of the text, and what follows it. -/
def readBare (d : Dialect) (cs : List Char) : Option (String × List Char) :=
  let word := cs.takeWhile d.isBareRest
  if d.isBareWord word then some (d.foldBare word, cs.dropWhile d.isBareRest) else none

theorem isBareRest_of_isPlainRest {d : Dialect} {c : Char} (h : d.isPlainRest c = true) :
    d.isBareRest c = true := by
  cases d with
  | bigQuery => exact h
  | postgreSql =>
    show (c.isUpper || c.isLower || c.isDigit || decide (c = '_') || decide (c = '$')) = true
    simp only [isPlainRest, Bool.or_eq_true] at h ⊢
    tauto

theorem isBareStart_of_isPlainStart {d : Dialect} {c : Char} (h : d.isPlainStart c = true) :
    isBareStart c = true := by
  cases d with
  | bigQuery => exact h
  | postgreSql =>
    show (c.isUpper || c.isLower || decide (c = '_')) = true
    simp only [isPlainStart, Bool.or_eq_true] at h ⊢
    tauto

theorem isBareWord_of_needsQuoting_eq_false {d : Dialect} {name : String}
    (h : d.needsQuoting name = false) : d.isBareWord name.toList = true := by
  have rest := all_isPlainRest_of_needsQuoting_eq_false h
  simp only [needsQuoting, Bool.or_eq_false_iff, Bool.not_eq_false'] at h
  obtain ⟨plain, free⟩ := h
  have start : name.toList.head?.any isBareStart = true := by
    cases hs : name.toList with
    | nil =>
      rw [hs] at plain
      cases plain
    | cons c cs =>
      rw [hs, isPlainWord, Bool.and_eq_true] at plain
      exact isBareStart_of_isPlainStart plain.1
  have all : name.toList.all d.isBareRest = true :=
    List.all_eq_true.2 fun c hc => isBareRest_of_isPlainRest (rest c hc)
  rw [isBareWord, start, all, String.ofList_toList, free]
  rfl

/-- No capital letter is left bare where it would be folded. -/
theorem toLower_of_isPlainRest {c : Char} (h : postgreSql.isPlainRest c = true) :
    c.toLower = c := by
  have values : 'A'.val.toNat = 65 ∧ 'Z'.val.toNat = 90 ∧ 'a'.val.toNat = 97 ∧
      '9'.val.toNat = 57 := by decide
  have within (low high : UInt32) (hc : (decide (c.val ≥ low) && decide (c.val ≤ high)) = true) :
      low.toNat ≤ c.val.toNat ∧ c.val.toNat ≤ high.toNat := by
    simpa only [Bool.and_eq_true, decide_eq_true_eq, UInt32.le_iff_toNat_le, ge_iff_le] using hc
  have other : ¬(c.val ≥ 'A'.val ∧ c.val ≤ 'Z'.val) := by
    simp only [isPlainRest, Bool.or_eq_true, decide_eq_true_eq] at h
    rw [ge_iff_le, UInt32.le_iff_toNat_le, UInt32.le_iff_toNat_le]
    rcases h with ((h | h) | rfl) | rfl
    · have := within 'a'.val 'z'.val h
      omega
    · have := within '0'.val '9'.val h
      omega
    · decide
    · decide
  unfold Char.toLower
  rw [dif_neg other]

theorem foldBare_of_needsQuoting_eq_false {d : Dialect} {name : String}
    (h : d.needsQuoting name = false) : d.foldBare name.toList = name := by
  cases d with
  | bigQuery => exact String.ofList_toList
  | postgreSql =>
    have same : name.toList.map Char.toLower = name.toList := by
      refine (List.map_congr_left ?_).trans (List.map_id _)
      intro c hc
      exact toLower_of_isPlainRest (all_isPlainRest_of_needsQuoting_eq_false h c hc)
    rw [foldBare, same, String.ofList_toList]

/-! ### Names -/

/-- Takes one name off the front of the text. -/
def readName (d : Dialect) : List Char → Option (String × List Char)
  | [] => none
  | c :: cs =>
    if c = d.identifierQuote then (d.readQuoted cs).map (Prod.map String.ofList id)
    else d.readBare (c :: cs)

/-- The text does not go on with a character that a name in front of it could take in. -/
def EndsName (d : Dialect) (rest : List Char) : Prop :=
  ∀ c ∈ rest.head?, d.isBareRest c = false ∧ c ≠ d.identifierQuote

instance (d : Dialect) (rest : List Char) : Decidable (d.EndsName rest) :=
  Option.decidableForallMem rest.head?

theorem endsName_nil (d : Dialect) : d.EndsName [] := nofun

theorem endsName_word (d : Dialect) (word : String)
    (h : ∀ e ∈ all, e.EndsName word.toList ∧ word.toList ≠ []) (cs : List Char) :
    d.EndsName (word.toList ++ cs) := by
  obtain ⟨ends, visible⟩ := h d (by cases d <;> decide)
  cases hw : word.toList with
  | nil => exact absurd hw visible
  | cons c more =>
    rw [hw] at ends
    exact ends

theorem length_readName_lt {d : Dialect} {cs : List Char} {name : String} {rest : List Char}
    (h : d.readName cs = some (name, rest)) : rest.length < cs.length := by
  cases cs with
  | nil => cases h
  | cons c cs =>
    rw [readName] at h
    split at h
    · obtain ⟨⟨inner, last⟩, hr, heq⟩ := Option.map_eq_some_iff.1 h
      cases heq
      have shorter := length_readQuoted_lt hr
      simp only [id_eq, List.length_cons]
      omega
    · rw [readBare] at h
      split at h
      · rename_i bare
        cases h
        -- a bare word has a first character
        have word : ((c :: cs).takeWhile d.isBareRest).length ≠ 0 := by
          intro empty
          rw [List.length_eq_zero_iff.1 empty] at bare
          cases bare
        have whole : ((c :: cs).takeWhile d.isBareRest).length +
            ((c :: cs).dropWhile d.isBareRest).length = (c :: cs).length := by
          rw [← List.length_append, List.takeWhile_append_dropWhile]
        omega
      · cases h

theorem readName_forceQuote {d : Dialect} {rest : List Char} (h : d.EndsName rest)
    (name : String) : d.readName ((d.forceQuote name).toList ++ rest) = some (name, rest) := by
  have body := readQuoted_escaped (fun c hc => (h c hc).2) name.toList
  rw [toList_forceQuote, List.cons_append, List.append_assoc, readName, if_pos rfl]
  show (d.readQuoted (name.toList.flatMap d.escapeChar ++ d.identifierQuote :: rest)).map _ = _
  rw [body, Option.map_some, Prod.map, String.ofList_toList]
  rfl

theorem readBare_append {d : Dialect} {word rest : List Char} (hw : d.isBareWord word = true)
    (h : d.EndsName rest) : d.readBare (word ++ rest) = some (d.foldBare word, rest) := by
  have all : ∀ c ∈ word, d.isBareRest c = true := by
    simp only [isBareWord, Bool.and_eq_true, List.all_eq_true] at hw
    exact hw.1.2
  have stop : rest.takeWhile d.isBareRest = [] ∧ rest.dropWhile d.isBareRest = rest := by
    cases rest with
    | nil => exact ⟨rfl, rfl⟩
    | cons c rest =>
      have other : ¬d.isBareRest c = true := by simp [(h c (by simp)).1]
      exact ⟨List.takeWhile_cons_of_neg other, List.dropWhile_cons_of_neg other⟩
  have take : (word ++ rest).takeWhile d.isBareRest = word := by
    rw [List.takeWhile_append_of_pos all, stop.1, List.append_nil]
  have drop : (word ++ rest).dropWhile d.isBareRest = rest := by
    rw [List.dropWhile_append_of_pos all, stop.2]
  rw [readBare, take, if_pos hw, drop]

/-- A name is read back from what stands in a statement for it. -/
theorem readName_quote {d : Dialect} {rest : List Char} (h : d.EndsName rest) (name : String) :
    d.readName ((d.quote name).toList ++ rest) = some (name, rest) := by
  unfold quote
  split
  · exact readName_forceQuote h name
  · rename_i bare
    rw [Bool.not_eq_true] at bare
    have word := isBareWord_of_needsQuoting_eq_false bare
    have read := readBare_append word h
    rw [foldBare_of_needsQuoting_eq_false bare] at read
    cases hs : name.toList with
    | nil =>
      rw [hs] at word
      cases word
    | cons c cs =>
      have plain := all_isPlainRest_of_needsQuoting_eq_false bare c (by simp [hs])
      have other : c ≠ d.identifierQuote := by
        rintro rfl
        cases d <;> cases plain
      rw [hs] at read
      rw [List.cons_append, readName, if_neg other]
      exact read

end LayeredSql.Dialect
