import LayeredSql.Proofs.Statements
import Mathlib.Data.List.TakeWhile

/-!
# Cutting a select clause into items

A statement is cut into output items the way a reader of its text would: from the leading `SELECT` to
the first word `FROM` outside quoted text and parentheses, at the commas outside quoted text and
parentheses. A select clause that was put together from items is followed here through both cuts: the
search for `FROM` and the parts between commas go item by item, and only the expression of an item can
bring a `FROM` or a comma, never its name.
-/

namespace LayeredSql

open Fragment

namespace OutputItems

/-- A character, and whether it stands outside quoted text and parentheses. -/
abbrev Mark := Char × Bool

/-- Marks the characters of a text that is read from the given state. Behind a refused character
nothing counts as outside. -/
def marks (d : Dialect) (s : State) : List Char → List Mark
  | [] => []
  | c :: cs => (c, s.mode.isOutside && s.depth == 0) :: match step d s c with
    | .ok t => marks d t cs
    | .error _ => cs.map fun x => (x, false)

/-- The text starts with the word, in any case, and the word ends there. -/
def startsWith (d : Dialect) (word : List Char) (ms : List Mark) : Bool :=
  (ms.take word.length).map (fun m => (m.1.toUpper, m.2)) == word.map (fun c => (c, true)) &&
    !(ms.drop word.length).head?.any fun m => d.isWordChar m.1

/-- The text in front of the first word `FROM`, if there is one; `inWord` says whether a word goes on
from the left. -/
def untilFrom (d : Dialect) (inWord : Bool) : List Mark → Option (List Mark)
  | [] => none
  | m :: ms =>
    if !inWord && startsWith d ['F', 'R', 'O', 'M'] (m :: ms) then some []
    else (untilFrom d (d.isWordChar m.1) ms).map (m :: ·)

def comma : Mark := (',', true)

/-- The parts between cutting commas, without the blanks at their ends. -/
def parts (ms : List Mark) : List (List Char) :=
  (ms.splitOn comma).map fun part => Text.trimChars (part.map Prod.fst)

/-- The items of a select clause; there are none if nothing but blanks stands in it. -/
def itemsOf (text : List Mark) : List (List Char) :=
  if text.all fun m => Text.isBlank m.1 then [] else parts text

def outputItems (d : Dialect) (sql : String) : Option (List (List Char)) :=
  let ms := marks d .start sql.toList
  if startsWith d ['S', 'E', 'L', 'E', 'C', 'T'] ms then
    (untilFrom d true (ms.drop 6)).map itemsOf
  else none

/-! ### Marks of a text that is put together -/

theorem map_fst_marks (d : Dialect) (s : State) (cs : List Char) :
    (marks d s cs).map Prod.fst = cs := by
  induction cs generalizing s with
  | nil => rfl
  | cons c cs ih =>
    rw [marks, List.map_cons]
    cases step d s c with
    | ok t => exact congrArg (c :: ·) (ih t)
    | error p =>
      rw [List.map_map]
      exact congrArg (c :: ·) (List.map_id cs)

theorem marks_singleton (d : Dialect) (s : State) (c : Char) :
    marks d s [c] = [(c, s.mode.isOutside && s.depth == 0)] := by
  rw [marks]
  cases step d s c <;> rfl

theorem marks_append {d : Dialect} {s t : State} {xs : List Char} (ys : List Char)
    (h : run d s xs = .ok t) : marks d s (xs ++ ys) = marks d s xs ++ marks d t ys := by
  induction xs generalizing s with
  | nil =>
    cases h
    rfl
  | cons c cs ih =>
    obtain ⟨u, hu, hr⟩ := run_cons_eq_ok_iff.1 h
    rw [List.cons_append, marks, marks, hu]
    exact congrArg (_ :: ·) (ih hr)

theorem marks_clears_append {d : Dialect} {xs : List Char} (ys : List Char)
    (h : Clears d 0 xs 0) :
    marks d .start (xs ++ ys) = marks d .start xs ++ marks d .start ys :=
  marks_append ys h

theorem marks_reads_append {d : Dialect} {xs : List Char} {c : Char} {ys : List Char}
    (h : Reads d 0 xs 0) (hj : Joins (c :: ys)) :
    marks d .start (xs ++ c :: ys) = marks d .start xs ++ marks d .start (c :: ys) := by
  obtain ⟨t, ht, rests, depth⟩ := h
  have hd : c ≠ '-' := fun h => hj.1 (congrArg some h)
  have ha : c ≠ '*' := fun h => hj.2 (congrArg some h)
  have same : marks d t (c :: ys) = marks d .start (c :: ys) := by
    rw [marks, marks, step_of_rests rests hd ha, rests.1, depth]
    rfl
  rw [State.start, marks_append (c :: ys) ht, same]
  rfl

theorem marks_of_not_significant (d : Dialect) (cs : List Char) (h : Insignificant cs) :
    marks d .start cs = cs.map fun c => (c, true) := by
  induction cs with
  | nil => rfl
  | cons c cs ih =>
    rw [marks]
    show _ :: (match codeStep d 0 c with | .ok t => marks d t cs | .error _ => _) = _
    rw [codeStep_of_not_significant d 0 (h c (by simp))]
    exact congrArg (_ :: ·) (ih fun x hx => h x (by simp [hx]))

/-! ### The first word `FROM` -/

theorem isWordChar_space (d : Dialect) : d.isWordChar (' ', true).1 = false := by
  cases d <;> decide

theorem isAlpha_of_toUpper_mem {c : Char} (h : c.toUpper ∈ ['F', 'R', 'O', 'M']) :
    c.isAlpha = true := by
  by_cases lower : c.val ≥ 'a'.val ∧ c.val ≤ 'z'.val
  · have small : c.isLower = true := by
      show (decide _ && decide _) = true
      rw [decide_eq_true lower.1, decide_eq_true lower.2]
      rfl
    show (c.isUpper || c.isLower) = true
    rw [small, Bool.or_true]
  · have same : c.toUpper = c := by
      unfold Char.toUpper
      rw [dif_neg lower]
    rw [same] at h
    simp only [List.mem_cons, List.not_mem_nil, or_false] at h
    rcases h with rfl | rfl | rfl | rfl <;> decide

theorem toUpper_not_mem_of_not_word {d : Dialect} {c : Char} (h : d.isWordChar c = false) :
    c.toUpper ∉ ['F', 'R', 'O', 'M'] := by
  intro hc
  have letter := isAlpha_of_toUpper_mem hc
  cases d <;> simp [Dialect.isWordChar, Char.isAlphanum, letter] at h

theorem startsWith_from_append {d : Dialect} {y : Mark} (hy : d.isWordChar y.1 = false)
    (xs ys : List Mark) :
    startsWith d ['F', 'R', 'O', 'M'] (xs ++ y :: ys) = startsWith d ['F', 'R', 'O', 'M'] xs := by
  unfold startsWith
  by_cases long : 4 ≤ xs.length
  · have next : ((xs ++ y :: ys).drop 4).head?.any (fun m => d.isWordChar m.1) =
        (xs.drop 4).head?.any fun m => d.isWordChar m.1 := by
      rw [List.drop_append_of_le_length long]
      cases xs.drop 4 with
      | nil => simp [hy]
      | cons m ms => rfl
    show ((List.take 4 _).map _ == _ && !Option.any _ (List.drop 4 _).head?) = _
    rw [next, List.take_append_of_le_length long]
    rfl
  · -- the character that ends the word would have to be a letter of `FROM`
    have short : xs.length < 4 := Nat.lt_of_not_le long
    have left : ((xs ++ y :: ys).take 4).map (fun m => (m.1.toUpper, m.2)) ≠
        ['F', 'R', 'O', 'M'].map fun c => (c, true) := by
      intro heq
      have within : y ∈ (xs ++ y :: ys).take 4 := by
        obtain ⟨k, hk⟩ : ∃ k, 4 - xs.length = k + 1 := ⟨4 - xs.length - 1, by omega⟩
        rw [List.take_append, hk, List.take_succ_cons]
        exact List.mem_append_right _ (List.mem_cons_self ..)
      have spelled := List.mem_map_of_mem (f := fun m : Mark => (m.1.toUpper, m.2)) within
      rw [heq] at spelled
      obtain ⟨c, hc, hu⟩ := List.mem_map.1 spelled
      have upper : c = y.1.toUpper := congrArg Prod.fst hu
      exact toUpper_not_mem_of_not_word hy (upper ▸ hc)
    have right : (xs.take 4).map (fun m => (m.1.toUpper, m.2)) ≠
        ['F', 'R', 'O', 'M'].map fun c => (c, true) := by
      intro heq
      have len := congrArg List.length heq
      simp only [List.length_map, List.length_take, List.length_cons, List.length_nil] at len
      omega
    show ((List.take 4 _).map _ == _ && _) = ((List.take 4 _).map _ == _ && _)
    rw [beq_eq_false_iff_ne.2 left, beq_eq_false_iff_ne.2 right]
    rfl

theorem untilFrom_cons_of_not_word {d : Dialect} {y : Mark} (hy : d.isWordChar y.1 = false)
    (inWord : Bool) (ys : List Mark) :
    untilFrom d inWord (y :: ys) = (untilFrom d false ys).map (y :: ·) := by
  have none : startsWith d ['F', 'R', 'O', 'M'] (y :: ys) = false :=
    startsWith_from_append hy [] ys
  rw [untilFrom, none, Bool.and_false, hy]
  rfl

/-- A character that ends words divides the search: first on its left, then on its right. -/
theorem untilFrom_append {d : Dialect} {y : Mark} (hy : d.isWordChar y.1 = false) (inWord : Bool)
    (xs ys : List Mark) :
    untilFrom d inWord (xs ++ y :: ys) =
      (untilFrom d inWord xs).or ((untilFrom d false ys).map fun p => xs ++ y :: p) := by
  induction xs generalizing inWord with
  | nil => exact untilFrom_cons_of_not_word hy inWord ys
  | cons m ms ih =>
    have starts := startsWith_from_append hy (m :: ms) ys
    rw [List.cons_append] at starts ⊢
    rw [untilFrom, untilFrom, starts]
    by_cases h : (!inWord && startsWith d ['F', 'R', 'O', 'M'] (m :: ms)) = true
    · rw [if_pos h, if_pos h]
      rfl
    · rw [if_neg h, if_neg h, ih]
      cases untilFrom d (d.isWordChar m.1) ms with
      | some p => rfl
      | none =>
        cases untilFrom d false ys with
        | some q => rfl
        | none => rfl

theorem untilFrom_eq_none_of_ne {d : Dialect} (inWord : Bool) (ms : List Mark)
    (h : ∀ m ∈ ms, m.2 = true → m.1.toUpper ≠ 'F') : untilFrom d inWord ms = none := by
  induction ms generalizing inWord with
  | nil => rfl
  | cons m ms ih =>
    have none : startsWith d ['F', 'R', 'O', 'M'] (m :: ms) = false := by
      rw [startsWith, Bool.and_eq_false_iff]
      refine Or.inl (beq_eq_false_iff_ne.2 ?_)
      intro heq
      have first : (m.1.toUpper, m.2) = ('F', true) := (List.cons.inj heq).1
      exact h m (by simp) (congrArg Prod.snd first) (congrArg Prod.fst first)
    rw [untilFrom, none, Bool.and_false, ih _ fun x hx => h x (by simp [hx])]
    rfl

theorem untilFrom_eq_none_of_word {d : Dialect} (ms : List Mark)
    (h : ∀ m ∈ ms, d.isWordChar m.1 = true) : untilFrom d true ms = none := by
  induction ms with
  | nil => rfl
  | cons m ms ih =>
    rw [untilFrom, h m (by simp), ih fun x hx => h x (by simp [hx])]
    rfl

/-! ### Parts between commas -/

theorem trimChars_cons_blank {c : Char} (h : Text.isBlank c = true) (cs : List Char) :
    Text.trimChars (c :: cs) = Text.trimChars cs := by
  rw [Text.trimChars, List.dropWhile_cons_of_pos h, Text.trimChars]

theorem trimChars_append_blank {c : Char} (h : Text.isBlank c = true) (cs : List Char) :
    Text.trimChars (cs ++ [c]) = Text.trimChars cs := by
  induction cs with
  | nil => simp [Text.trimChars, h]
  | cons x xs ih =>
    by_cases hx : Text.isBlank x = true
    · rw [List.cons_append, trimChars_cons_blank hx, trimChars_cons_blank hx, ih]
    · rw [List.cons_append, Text.trimChars, Text.trimChars, List.dropWhile_cons_of_neg hx,
        List.dropWhile_cons_of_neg hx, ← List.cons_append, List.reverse_append,
        List.reverse_singleton, List.singleton_append, List.dropWhile_cons_of_pos h]

theorem splitOn_append_singleton {m : Mark} (hm : m ≠ comma) (ms : List Mark) :
    ∃ init last, ms.splitOn comma = init ++ [last] ∧
      (ms ++ [m]).splitOn comma = init ++ [last ++ [m]] := by
  have other : (m == comma) = false := beq_eq_false_iff_ne.2 hm
  induction ms with
  | nil =>
    refine ⟨[], [], rfl, ?_⟩
    rw [List.nil_append, List.splitOn_cons_eq_if_modifyHead, other]
    rfl
  | cons x xs ih =>
    obtain ⟨init, last, hs, hs'⟩ := ih
    rw [List.cons_append, List.splitOn_cons_eq_if_modifyHead, List.splitOn_cons_eq_if_modifyHead,
      hs, hs']
    by_cases hx : (x == comma) = true
    · exact ⟨[] :: init, last, by rw [if_pos hx]; rfl, by rw [if_pos hx]; rfl⟩
    · rw [if_neg hx, if_neg hx]
      cases init with
      | nil => exact ⟨[], x :: last, rfl, rfl⟩
      | cons first rest => exact ⟨(x :: first) :: rest, last, rfl, rfl⟩

theorem parts_append_comma (xs ys : List Mark) :
    parts (xs ++ comma :: ys) = parts xs ++ parts ys := by
  rw [parts, List.splitOn_append_cons_self, List.map_append]
  rfl

theorem parts_cons_blank {m : Mark} (hm : m ≠ comma) (hb : Text.isBlank m.1 = true)
    (ms : List Mark) : parts (m :: ms) = parts ms := by
  have other : (m == comma) = false := beq_eq_false_iff_ne.2 hm
  rw [parts, parts, List.splitOn_cons_eq_if_modifyHead, other]
  cases hs : ms.splitOn comma with
  | nil => exact absurd hs (List.splitOn_ne_nil comma ms)
  | cons first rest =>
    show Text.trimChars (m.1 :: first.map Prod.fst) :: _ = Text.trimChars (first.map Prod.fst) :: _
    rw [trimChars_cons_blank hb]

theorem parts_append_blank {m : Mark} (hm : m ≠ comma) (hb : Text.isBlank m.1 = true)
    (ms : List Mark) : parts (ms ++ [m]) = parts ms := by
  obtain ⟨init, last, hs, hs'⟩ := splitOn_append_singleton hm ms
  rw [parts, parts, hs, hs', List.map_append, List.map_append]
  show _ ++ [Text.trimChars ((last ++ [m]).map Prod.fst)] =
    _ ++ [Text.trimChars (last.map Prod.fst)]
  rw [List.map_append]
  show _ ++ [Text.trimChars (last.map Prod.fst ++ [m.1])] = _
  rw [trimChars_append_blank hb]

theorem parts_of_not_mem {ms : List Mark} (h : comma ∉ ms) :
    parts ms = [Text.trimChars (ms.map Prod.fst)] := by
  rw [parts, List.splitOn_eq_singleton h]
  rfl

theorem one_le_length_parts (ms : List Mark) : 1 ≤ (parts ms).length := by
  rw [parts, List.length_map]
  exact List.length_pos_iff.2 (List.splitOn_ne_nil comma ms)

theorem one_lt_length_parts {ms : List Mark} (h : comma ∈ ms) : 1 < (parts ms).length := by
  obtain ⟨xs, ys, rfl⟩ := List.append_of_mem h
  have hx := one_le_length_parts xs
  have hy := one_le_length_parts ys
  rw [parts_append_comma, List.length_append]
  omega

/-! ### Names and items -/

theorem isWordChar_of_isPlainRest {d : Dialect} {c : Char} (h : d.isPlainRest c = true) :
    d.isWordChar c = true := by
  cases d with
  | bigQuery => exact h
  | postgreSql =>
    simp only [Dialect.isPlainRest, Bool.or_eq_true, decide_eq_true_eq] at h
    show (c.isUpper || c.isLower || c.isDigit || decide _ || decide _ || decide _) = true
    simp only [Bool.or_eq_true, decide_eq_true_eq]
    rcases h with ((h | h) | h) | h
    · exact Or.inl (Or.inl (Or.inl (Or.inl (Or.inr h))))
    · exact Or.inl (Or.inl (Or.inl (Or.inr h)))
    · exact Or.inl (Or.inl (Or.inr h))
    · exact Or.inl (Or.inr h)

theorem outside_marks_escapeChar {d : Dialect} {c : Char} :
    ∀ m ∈ marks d ⟨.quoted d.identifierQuote, 0⟩ (d.escapeChar c), m.2 = true →
      m.1 = d.identifierQuote := by
  cases d with
  | bigQuery =>
    by_cases hc : c = '\\' ∨ c = '\x60'
    · simp [Dialect.escapeChar, hc, marks, step, Dialect.escapesByBackslash, Mode.isOutside]
    · simp [Dialect.escapeChar, hc, marks_singleton, Mode.isOutside]
  | postgreSql =>
    by_cases hc : c = '"'
    · -- between the two delimiters the machine takes the name to be over
      have twice : marks .postgreSql ⟨.quoted '"', 0⟩ ['"', '"'] = [('"', false), ('"', true)] := rfl
      simp [Dialect.escapeChar, hc, Dialect.identifierQuote, twice]
    · simp [Dialect.escapeChar, hc, marks_singleton, Mode.isOutside]

theorem outside_marks_forceQuote (d : Dialect) (name : String) :
    ∀ m ∈ marks d .start (d.forceQuote name).toList, m.2 = true → m.1 = d.identifierQuote := by
  have body (cs : List Char) : ∀ m ∈ marks d ⟨.quoted d.identifierQuote, 0⟩
      (cs.flatMap d.escapeChar ++ [d.identifierQuote]), m.2 = true → m.1 = d.identifierQuote := by
    induction cs with
    | nil => simp [marks_singleton]
    | cons c cs ih =>
      rw [List.flatMap_cons, List.append_assoc, marks_append _ (run_escapeChar d 0 c)]
      intro m hm
      rcases List.mem_append.1 hm with hm | hm
      · exact outside_marks_escapeChar m hm
      · exact ih m hm
  have opens : step d .start d.identifierQuote = .ok ⟨.quoted d.identifierQuote, 0⟩ := by
    cases d <;> rfl
  rw [toList_forceQuote, marks, opens]
  intro m hm
  rcases List.mem_cons.1 hm with rfl | hm
  · intro _
    rfl
  · exact body name.toList m hm

theorem isReserved_of_spells_from {d : Dialect} {name : String}
    (h : name.toList.map Char.toUpper = ['F', 'R', 'O', 'M']) : d.isReserved name = true := by
  have upper : name.map Char.toUpper = "FROM" := by
    rw [← String.toList_inj, String.toList_map, h]
    rfl
  rw [Dialect.isReserved, upper]
  cases d <;> decide +kernel

/-- A bare word in front of which no word goes on is no `FROM`, since that is reserved. -/
theorem untilFrom_bare {d : Dialect} {name : String} (h : d.needsQuoting name = false) :
    untilFrom d false (name.toList.map fun c => (c, true)) = none := by
  have word : ∀ m ∈ name.toList.map fun c => (c, true), d.isWordChar m.1 = true := by
    intro m hm
    obtain ⟨c, hc, rfl⟩ := List.mem_map.1 hm
    exact isWordChar_of_isPlainRest (all_isPlainRest_of_needsQuoting_eq_false h c hc)
  have notFrom : startsWith d ['F', 'R', 'O', 'M'] (name.toList.map fun c => (c, true)) = false := by
    by_contra starts
    rw [Bool.not_eq_false, startsWith, Bool.and_eq_true, beq_iff_eq] at starts
    obtain ⟨spelled, ends⟩ := starts
    have rest : (name.toList.map fun c => (c, true)).drop 4 = [] := by
      cases hd : (name.toList.map fun c => (c, true)).drop 4 with
      | nil => rfl
      | cons m ms =>
        have hm := word m (List.mem_of_mem_drop (hd ▸ List.mem_cons_self ..))
        change (!Option.any _ (List.drop 4 _).head?) = true at ends
        rw [hd] at ends
        simp [hm] at ends
    have whole := List.take_append_drop 4 (name.toList.map fun c => (c, true))
    rw [rest, List.append_nil] at whole
    change (List.take 4 _).map _ = _ at spelled
    rw [whole, List.map_map] at spelled
    have upper : name.toList.map Char.toUpper = ['F', 'R', 'O', 'M'] := by
      have first := congrArg (List.map Prod.fst) spelled
      rw [List.map_map] at first
      exact first
    have reserved := isReserved_of_spells_from (d := d) upper
    simp [Dialect.needsQuoting, reserved] at h
  cases hs : name.toList.map (fun c => (c, true)) with
  | nil => rfl
  | cons m ms =>
    rw [hs] at word notFrom
    rw [untilFrom, notFrom, word m (by simp),
      untilFrom_eq_none_of_word ms fun x hx => word x (by simp [hx])]
    rfl

theorem marks_bare {d : Dialect} {name : String} (h : d.needsQuoting name = false) :
    marks d .start name.toList = name.toList.map fun c => (c, true) := by
  refine marks_of_not_significant d name.toList ?_
  intro c hc
  exact not_significant_of_isPlainRest (all_isPlainRest_of_needsQuoting_eq_false h c hc)

theorem untilFrom_quote (d : Dialect) (name : String) :
    untilFrom d false (marks d .start (d.quote name).toList) = none := by
  unfold Dialect.quote
  split
  · refine untilFrom_eq_none_of_ne false _ ?_
    intro m hm outside
    rw [outside_marks_forceQuote d name m hm outside]
    cases d <;> decide
  · rename_i bare
    rw [Bool.not_eq_true] at bare
    rw [marks_bare bare]
    exact untilFrom_bare bare

theorem comma_not_mem_quote (d : Dialect) (name : String) :
    comma ∉ marks d .start (d.quote name).toList := by
  intro hm
  unfold Dialect.quote at hm
  split at hm
  · have quote := outside_marks_forceQuote d name comma hm rfl
    revert quote
    cases d <;> decide
  · rename_i bare
    rw [Bool.not_eq_true] at bare
    rw [marks_bare bare] at hm
    obtain ⟨c, hc, heq⟩ := List.mem_map.1 hm
    have plain := all_isPlainRest_of_needsQuoting_eq_false bare c hc
    have hcomma : c = ',' := congrArg Prod.fst heq
    rw [hcomma] at plain
    revert plain
    cases d <;> decide

theorem marks_aliased {d : Dialect} {text : String} (label : String)
    (h : Reads d 0 text.toList 0) :
    marks d .start (Query.aliased d text label).toList =
      marks d .start text.toList ++ (' ', true) :: ('A', true) :: ('S', true) :: (' ', true) ::
        marks d .start (d.quote label).toList := by
  have keyword : Clears d 0 " AS ".toList 0 := clears_of_not_significant d 0 _ (by decide)
  have plain := marks_of_not_significant d " AS ".toList (by decide)
  rw [Query.aliased, String.toList_append, String.toList_append, List.append_assoc]
  rw [show " AS ".toList ++ (d.quote label).toList =
    ' ' :: ("AS ".toList ++ (d.quote label).toList) from rfl,
    marks_reads_append h (by simp [Joins])]
  rw [show ' ' :: ("AS ".toList ++ (d.quote label).toList) =
    " AS ".toList ++ (d.quote label).toList from rfl, marks_clears_append _ keyword, plain]
  rfl

theorem untilFrom_aliased {d : Dialect} {text : String} (label : String)
    (h : Reads d 0 text.toList 0) :
    untilFrom d false (marks d .start (Query.aliased d text label).toList) =
      untilFrom d false (marks d .start text.toList) := by
  have word : untilFrom d false (('A', true) :: ('S', true) :: (' ', true) ::
      marks d .start (d.quote label).toList) = none := by
    have first := untilFrom_append (isWordChar_space d) false [('A', true), ('S', true)]
      (marks d .start (d.quote label).toList)
    have as : untilFrom d false [('A', true), ('S', true)] = none := by cases d <;> decide
    rw [as, untilFrom_quote] at first
    exact first
  rw [marks_aliased label h, untilFrom_append (isWordChar_space d), word, Option.map_none, Option.or_none]

theorem comma_mem_aliased_iff {d : Dialect} {text : String} (label : String)
    (h : Reads d 0 text.toList 0) :
    comma ∈ marks d .start (Query.aliased d text label).toList ↔
      comma ∈ marks d .start text.toList := by
  have none := comma_not_mem_quote d label
  rw [marks_aliased label h, List.mem_append]
  constructor
  · rintro (hm | hm)
    · exact hm
    · simp only [List.mem_cons, comma, Prod.mk.injEq, and_true] at hm
      rcases hm with hm | hm | hm | hm | hm
      · exact absurd hm (by decide)
      · exact absurd hm (by decide)
      · exact absurd hm (by decide)
      · exact absurd hm (by decide)
      · exact absurd hm none
  · exact Or.inl

theorem suffix_trimChars {xs ys : List Char} {z : Char} (hx : ∃ c ∈ xs, Text.isBlank c = false)
    (hz : Text.isBlank z = false) : ys ++ [z] <:+ Text.trimChars (xs ++ (ys ++ [z])) := by
  have left : xs.dropWhile Text.isBlank ≠ [] := by
    obtain ⟨c, hc, hb⟩ := hx
    intro heq
    have blank := List.dropWhile_eq_nil_iff.1 heq c hc
    rw [hb] at blank
    cases blank
  have kept : (xs ++ (ys ++ [z])).dropWhile Text.isBlank =
      xs.dropWhile Text.isBlank ++ (ys ++ [z]) := by
    rw [List.dropWhile_append, if_neg (by simpa using left)]
  have last : ((xs.dropWhile Text.isBlank ++ ys ++ [z]).reverse).dropWhile Text.isBlank =
      (xs.dropWhile Text.isBlank ++ ys ++ [z]).reverse := by
    rw [List.reverse_append, List.reverse_singleton, List.singleton_append,
      List.dropWhile_cons_of_neg (by simp [hz])]
  rw [Text.trimChars, kept, ← List.append_assoc, last, List.reverse_reverse, List.append_assoc]
  exact List.suffix_append _ _

theorem suffix_parts_aliased {d : Dialect} {text : String} (label : String)
    (h : Reads d 0 text.toList 0) (visible : ∃ c ∈ text.toList, Text.isBlank c = false)
    (hc : comma ∉ marks d .start text.toList) :
    ∃ item, parts (marks d .start (Query.aliased d text label).toList) = [item] ∧
      (" AS " ++ d.quote label).toList <:+ item := by
  have none : comma ∉ marks d .start (Query.aliased d text label).toList := by
    rw [comma_mem_aliased_iff label h]
    exact hc
  refine ⟨_, parts_of_not_mem none, ?_⟩
  rcases List.eq_nil_or_concat (d.quote label).toList with empty | ⟨init, last, hq⟩
  · exact absurd empty (toList_quote_ne_nil d label)
  have hb : Text.isBlank last = false := (visibleEnds_quote d label).2 last (by simp [hq])
  have named : (" AS " ++ d.quote label).toList = (" AS ".toList ++ init) ++ [last] := by
    rw [String.toList_append, hq, List.concat_eq_append, List.append_assoc]
  have item : (Query.aliased d text label).toList =
      text.toList ++ ((" AS ".toList ++ init) ++ [last]) := by
    rw [Query.aliased, String.append_assoc, String.toList_append, named]
  rw [map_fst_marks, named, item]
  exact suffix_trimChars visible hb

/-! ### Select clauses -/

def separator : List Mark := [comma, (' ', true)]

def itemMarks (d : Dialect) (item : String) : List Mark := marks d .start item.toList

theorem marks_separated {d : Dialect} {xs : List Char} (ys : List Char) (h : Reads d 0 xs 0) :
    marks d .start (xs ++ (", ".toList ++ ys)) =
      marks d .start xs ++ (separator ++ marks d .start ys) := by
  have sep : Clears d 0 ", ".toList 0 := clears_of_not_significant d 0 _ (by decide)
  have plain := marks_of_not_significant d ", ".toList (by decide)
  have joined : marks d .start (xs ++ (", ".toList ++ ys)) =
      marks d .start xs ++ marks d .start (", ".toList ++ ys) :=
    marks_reads_append (c := ',') h (by simp [Joins])
  rw [joined, marks_clears_append ys sep, plain]
  rfl

theorem marks_commaList {d : Dialect} (items : List String)
    (h : ∀ item ∈ items, Reads d 0 item.toList 0) :
    marks d .start (Query.commaList items).toList =
      separator.intercalate (items.map (itemMarks d)) := by
  rw [Query.commaList, String.toList_intercalate]
  induction items with
  | nil => rfl
  | cons item rest ih =>
    have hi := h item (by simp)
    have hr := ih fun x hx => h x (by simp [hx])
    by_cases last : rest = []
    · subst last
      simp only [List.map_cons, List.map_nil, List.intercalate_singleton, itemMarks]
    · rw [List.map_cons, List.map_cons, List.intercalate_cons_of_ne_nil (by simpa using last),
        List.intercalate_cons_of_ne_nil (by simpa using last), List.append_assoc,
        marks_separated _ hi, hr, List.append_assoc]
      rfl

theorem separator_append (d : Dialect) (inWord : Bool) (xs ys : List Mark) :
    untilFrom d inWord (xs ++ (separator ++ ys)) =
      (untilFrom d inWord xs).or
        ((untilFrom d false ys).map fun p => xs ++ (separator ++ p)) := by
  have hc : d.isWordChar comma.1 = false := by cases d <;> decide
  show untilFrom d inWord (xs ++ comma :: (' ', true) :: ys) = _
  rw [untilFrom_append hc, untilFrom_cons_of_not_word (isWordChar_space d), Option.map_map]
  rfl

theorem untilFrom_items_none {d : Dialect} (ms : List (List Mark))
    (h : ∀ m ∈ ms, untilFrom d false m = none) :
    untilFrom d false (separator.intercalate ms) = none := by
  induction ms with
  | nil => rfl
  | cons m rest ih =>
    have hm := h m (by simp)
    have hr := ih fun x hx => h x (by simp [hx])
    cases rest with
    | nil =>
      rw [List.intercalate_singleton]
      exact hm
    | cons next more =>
      rw [List.intercalate_cons_cons, List.append_assoc, separator_append, hm, hr]
      rfl

theorem untilFrom_items_some {d : Dialect} (before : List (List Mark)) (m : List Mark)
    (after : List (List Mark)) {cut : List Mark} (hb : ∀ x ∈ before, untilFrom d false x = none)
    (hm : untilFrom d false m = some cut) :
    untilFrom d false (separator.intercalate (before ++ m :: after)) =
      some ((before.flatMap fun x => x ++ separator) ++ cut) := by
  induction before with
  | nil =>
    cases after with
    | nil =>
      rw [List.nil_append, List.intercalate_singleton]
      exact hm
    | cons next more =>
      rw [List.nil_append, List.intercalate_cons_cons, List.append_assoc, separator_append, hm]
      rfl
  | cons x rest ih =>
    have hx := hb x (by simp)
    have hr := ih fun y hy => hb y (by simp [hy])
    have cons : separator.intercalate (x :: rest ++ m :: after) =
        x ++ (separator ++ separator.intercalate (rest ++ m :: after)) := by
      rw [List.cons_append, List.intercalate_cons_of_ne_nil (by simp), List.append_assoc]
    rw [cons, separator_append, hx, hr, Option.none_or, Option.map_some, List.flatMap_cons]
    simp only [List.append_assoc]

theorem parts_separator_append (xs ys : List Mark) :
    parts (xs ++ (separator ++ ys)) = parts xs ++ parts ys := by
  show parts (xs ++ comma :: (' ', true) :: ys) = _
  rw [parts_append_comma, parts_cons_blank (by decide) (by decide)]

theorem parts_items (ms : List (List Mark)) (h : ms ≠ []) :
    parts (separator.intercalate ms) = ms.flatMap parts := by
  induction ms with
  | nil => exact absurd rfl h
  | cons m rest ih =>
    by_cases last : rest = []
    · subst last
      simp [List.intercalate_singleton]
    · rw [List.intercalate_cons_of_ne_nil last, List.append_assoc, parts_separator_append,
        ih last, List.flatMap_cons]

theorem parts_before (before : List (List Mark)) (cut : List Mark) :
    parts ((before.flatMap fun x => x ++ separator) ++ cut) =
      before.flatMap parts ++ parts cut := by
  induction before with
  | nil => rfl
  | cons x rest ih =>
    rw [List.flatMap_cons, List.flatMap_cons, List.append_assoc, List.append_assoc,
      parts_separator_append, ih, List.append_assoc]

/-- The marks of a select clause behind its keyword. -/
def clauseMarks (d : Dialect) (items : List String) : List Mark :=
  if items.isEmpty then [] else (' ', true) :: separator.intercalate (items.map (itemMarks d))

theorem marks_selectItems {d : Dialect} (items : List String)
    (h : ∀ item ∈ items, Reads d 0 item.toList 0) :
    marks d .start (Query.selectItems items).toList =
      "SELECT".toList.map (fun c => (c, true)) ++ clauseMarks d items := by
  unfold Query.selectItems clauseMarks
  split
  · rw [List.append_nil]
    exact marks_of_not_significant d _ (by decide)
  · have keyword : Clears d 0 "SELECT ".toList 0 := clears_of_not_significant d 0 _ (by decide)
    have plain := marks_of_not_significant d "SELECT ".toList (by decide)
    rw [String.toList_append, marks_clears_append _ keyword, plain, marks_commaList items h]
    rfl

/-- What follows the keyword `FROM` of the outermost layer plays no part. -/
theorem outputItems_select {d : Dialect} {items : List String} (rest : String)
    (h : ∀ item ∈ items, Reads d 0 item.toList 0) :
    outputItems d (Query.selectItems items ++ " FROM " ++ rest) =
      some (itemsOf ((untilFrom d true (clauseMarks d items)).getD
        (clauseMarks d items ++ [(' ', true)]))) := by
  have keyword : Clears d 0 " FROM ".toList 0 := clears_of_not_significant d 0 _ (by decide)
  have plain := marks_of_not_significant d " FROM ".toList (by decide)
  have clause := Query.reads_selectItems items h
  have joined : marks d .start (Query.selectItems items ++ " FROM " ++ rest).toList =
      marks d .start (Query.selectItems items).toList ++
        marks d .start (" FROM ".toList ++ rest.toList) := by
    rw [String.toList_append, String.toList_append, List.append_assoc]
    exact marks_reads_append (c := ' ') clause (by simp [Joins])
  have whole : marks d .start (Query.selectItems items ++ " FROM " ++ rest).toList =
      "SELECT".toList.map (fun c => (c, true)) ++ (clauseMarks d items ++ (' ', true) ::
        ('F', true) :: ('R', true) :: ('O', true) :: ('M', true) :: (' ', true) ::
          marks d .start rest.toList) := by
    rw [joined, marks_selectItems items h, marks_clears_append _ keyword, plain, List.append_assoc]
    rfl
  have starts (tail : List Mark) (htail : tail.head? = some (' ', true)) :
      startsWith d ['S', 'E', 'L', 'E', 'C', 'T']
        ("SELECT".toList.map (fun c => (c, true)) ++ tail) = true := by
    obtain ⟨more, rfl⟩ : ∃ more, tail = (' ', true) :: more := by
      cases tail with
      | nil => cases htail
      | cons m ms =>
        cases htail
        exact ⟨ms, rfl⟩
    cases d <;> rfl
  have head : (clauseMarks d items ++ (' ', true) :: ('F', true) :: ('R', true) :: ('O', true) ::
      ('M', true) :: (' ', true) :: marks d .start rest.toList).head? = some (' ', true) := by
    unfold clauseMarks
    split <;> rfl
  have from_ : untilFrom d false (('F', true) :: ('R', true) :: ('O', true) :: ('M', true) ::
      (' ', true) :: marks d .start rest.toList) = some [] := by
    cases d <;> rfl
  unfold outputItems
  simp only [whole]
  rw [starts _ head, if_pos rfl]
  show Option.map itemsOf (untilFrom d true (clauseMarks d items ++ _)) = _
  rw [untilFrom_append (isWordChar_space d), from_]
  cases untilFrom d true (clauseMarks d items) with
  | none => rfl
  | some p => rfl

end OutputItems

end LayeredSql
