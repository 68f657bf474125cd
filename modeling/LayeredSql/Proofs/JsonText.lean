import LayeredSql.Datum.Json
import Mathlib.Data.List.Forall2

/-!
# Printed JSON is read back

The printer puts each item of a list and each member of a record on a line of its own; the reader
passes over that space. A printed value ends where the reader stops, unless it is a number and what
stands behind it goes on with the number. A comma, a line break and the end of the text do not, so the
parts of a printed value are read back one after the other. Of the numbers, those that count something
are treated; moments are left out, since a moment is printed as text.
-/

namespace LayeredSql

namespace Reader

variable {α : Type}

/-- The reader takes `a` off the front of the text and leaves `rest`. -/
def Takes (read : Reader α) (cs : List Char) (a : α) (rest : List Char) : Prop :=
  ∃ last : Shorter cs, read cs = some (a, last) ∧ last.1 = rest

theorem untilNone_nil {read : Reader (Option α)} {cs rest : List Char}
    (h : Takes read cs none rest) : Takes (untilNone read) cs [] rest := by
  obtain ⟨last, hr, rfl⟩ := h
  refine ⟨last, ?_, rfl⟩
  rw [untilNone, hr]

theorem untilNone_cons {read : Reader (Option α)} {cs rest last : List Char} {a : α} {as : List α}
    (h : Takes read cs (some a) rest) (ht : Takes (untilNone read) rest as last) :
    Takes (untilNone read) cs (a :: as) last := by
  obtain ⟨behind, hr, rfl⟩ := h
  obtain ⟨final, hf, rfl⟩ := ht
  refine ⟨behind.trans final, ?_, rfl⟩
  rw [untilNone, hr]
  simp only [hf]

namespace Brackets

variable {b : Brackets} {item : Reader α} {cs rest more last : List Char} {a : α} {as : List α}

theorem items_last (h : Takes item (b.skip cs) a rest) (hc : b.skip rest = b.close :: more) :
    Takes (b.items item) cs [a] more := by
  obtain ⟨behind, hr, rfl⟩ := h
  rw [Takes, items, hr]
  simp only
  split <;> simp_all

theorem items_cons (h : Takes item (b.skip cs) a rest) (hc : b.skip rest = ',' :: more)
    (hb : b.close ≠ ',') (ht : b.trailing = false) (hi : Takes (b.items item) more as last) :
    Takes (b.items item) cs (a :: as) last := by
  obtain ⟨behind, hr, rfl⟩ := h
  obtain ⟨final, hf, rfl⟩ := hi
  -- a reader of items needs something to read, so the comma is not the end of the text
  have stands : b.skip more ≠ [] := by
    intro he
    cases hn : item (b.skip more) with
    | none => simp [items, hn] at hf
    | some result =>
      have short := result.2.2
      simp [he] at short
  rw [Takes, items, hr]
  simp only
  split
  · simp_all
  · rename_i c more' hm
    obtain ⟨rfl, rfl⟩ : c = ',' ∧ more' = more := by simpa [hm] using hc
    rw [if_neg (Ne.symm hb), if_pos rfl]
    split
    · exact absurd ‹_› stands
    · simp [ht, hf]

theorem list_nil (hc : b.skip cs = b.close :: rest) : Takes (b.list item) cs [] rest := by
  rw [Takes, list]
  split <;> simp_all

theorem list_of_items {c : Char} (hs : b.skip cs = c :: more) (hc : c ≠ b.close)
    (hi : Takes (b.items item) cs as rest) : Takes (b.list item) cs as rest := by
  rw [Takes, list]
  split
  · rename_i c' more' hm
    obtain ⟨rfl, rfl⟩ : c' = c ∧ more' = more := by simpa [hm] using hs
    rw [if_neg hc]
    exact hi
  · simp_all

end Brackets

end Reader

/-! ### Counts in decimal -/

namespace Numeral

/-- Decimal digits have no zero in front, apart from zero itself. -/
theorem exists_toDigits_eq_cons {k : Nat} (h : 0 < k) :
    ∃ c cs, Nat.toDigits 10 k = c :: cs ∧ c ≠ '0' := by
  induction k using Nat.strongRecOn with
  | _ k ih =>
    by_cases small : k < 10
    · have nonzero : ∀ n < 10, 0 < n → n.digitChar ≠ '0' := by decide
      exact ⟨k.digitChar, [], Nat.toDigits_of_lt_base small, nonzero k small h⟩
    · obtain ⟨c, cs, front, hc⟩ := ih (k / 10) (by omega) (by omega)
      refine ⟨c, cs ++ [(k % 10).digitChar], ?_, hc⟩
      rw [Nat.toDigits_of_base_le (by omega) (by omega), front, List.cons_append]

theorem digitValue_digitChar : ∀ n < 10, digitValue n.digitChar = n := by
  decide

/-- A number of 64 bits leaves room for each of its digits. -/
theorem foldl_integerDigit_toDigits {k : Nat} (h : k < Nat.pow 2 64) :
    (Nat.toDigits 10 k).foldl (fun s c => s.integerDigit (digitValue c)) Significand.zero =
      ⟨k, 0, false⟩ := by
  induction k using Nat.strongRecOn with
  | _ k ih =>
    by_cases small : k < 10
    · have fits : Significand.zero.fits k = true := by
        simp only [Significand.fits, Significand.zero]
        simpa using h
      rw [Nat.toDigits_of_lt_base small, List.foldl_cons, List.foldl_nil,
        digitValue_digitChar k small, Significand.integerDigit, if_pos fits]
      simp [Significand.zero]
    · have last : k / 10 * 10 + k % 10 = k := by omega
      have fits : (⟨k / 10, 0, false⟩ : Significand).fits (k % 10) = true := by
        simp only [Significand.fits, last]
        simpa using h
      rw [Nat.toDigits_of_base_le (by omega) (by omega), List.foldl_append,
        ih (k / 10) (by omega) (by omega), List.foldl_cons, List.foldl_nil,
        digitValue_digitChar _ (by omega), Significand.integerDigit, if_pos fits, last]

theorem round53_le (k : Nat) : round53 k ≤ 2 * k := by
  rw [round53]
  by_cases small : k < Nat.pow 2 53
  · rw [if_pos small]
    omega
  · have positive : k ≠ 0 := by
      rintro rfl
      exact small (by decide)
    have unit : Nat.pow 2 (k.log2 - 52) ≤ k :=
      Nat.le_trans (Nat.pow_le_pow_right (by decide) (Nat.sub_le _ _)) (Nat.log2_self_le positive)
    have low : k / Nat.pow 2 (k.log2 - 52) * Nat.pow 2 (k.log2 - 52) ≤ k := Nat.div_mul_le_self ..
    have next : (k / Nat.pow 2 (k.log2 - 52) + 1) * Nat.pow 2 (k.log2 - 52) ≤ 2 * k := by
      rw [Nat.succ_mul]
      omega
    rw [if_neg small]
    dsimp only
    split
    · exact next
    · omega

theorem inProductRange_toDigits {k : Nat} (h : k < Nat.pow 2 64) :
    inProductRange (Nat.toDigits 10 k) [] 0 = true := by
  have bound : 2 * Nat.pow 2 64 ≤ overflow := by decide +kernel
  have finite : round53 k * round53 (Nat.pow 10 0) < overflow := by
    have twice := round53_le k
    rw [show round53 (Nat.pow 10 0) = 1 from rfl]
    omega
  rw [inProductRange, foldl_integerDigit_toDigits h]
  show (decide (k = 0) || (decide (0 ≤ 308) &&
    decide (round53 k * round53 (Nat.pow 10 0) < overflow))) = true
  rw [decide_eq_true finite, Bool.and_true, decide_eq_true (Nat.zero_le 308), Bool.or_true]

end Numeral

namespace Datum.Json

open Reader

/-! ### Numbers -/

/-- No number goes on with the text. -/
def EndsNumber (cs : List Char) : Prop :=
  ∀ c ∈ cs.head?, c.isDigit = false ∧ c ≠ '.' ∧ c ≠ 'e' ∧ c ≠ 'E'

theorem endsNumber_cons_iff {c : Char} {cs : List Char} :
    EndsNumber (c :: cs) ↔ c.isDigit = false ∧ c ≠ '.' ∧ c ≠ 'e' ∧ c ≠ 'E' := by
  simp [EndsNumber]

theorem digits_append {ds rest : List Char} (hd : ∀ c ∈ ds, c.isDigit = true)
    (hr : EndsNumber rest) : digits (ds ++ rest) = ds := by
  have none : rest.takeWhile Char.isDigit = [] := by
    cases rest with
    | nil => rfl
    | cons c cs => rw [List.takeWhile_cons_of_neg (by simp [(hr c rfl).1])]
  rw [digits, List.takeWhile_append_of_pos hd, none, List.append_nil]

theorem fractionDigits_of_endsNumber {rest : List Char} (hr : EndsNumber rest) :
    fractionDigits rest = some ([], 0) := by
  cases rest with
  | nil => rfl
  | cons c cs => simp [fractionDigits, (hr c rfl).2.1]

theorem exponentPart_of_endsNumber {rest : List Char} (hr : EndsNumber rest) :
    exponentPart rest = some (0, 0) := by
  cases rest with
  | nil => rfl
  | cons c cs => simp [exponentPart, (hr c rfl).2.2]

theorem integerDigits_toDigits (k : Nat) {rest : List Char} (hr : EndsNumber rest) :
    integerDigits (Nat.toDigits 10 k ++ rest) = Nat.toDigits 10 k := by
  rcases Nat.eq_zero_or_pos k with rfl | positive
  · rfl
  · have all : digits (Nat.toDigits 10 k ++ rest) = Nat.toDigits 10 k :=
      digits_append (fun c hc => Nat.isDigit_of_mem_toDigits (by decide) (by decide) hc) hr
    obtain ⟨c, cs, front, hc⟩ := Numeral.exists_toDigits_eq_cons positive
    rw [front, List.cons_append] at all ⊢
    simpa [integerDigits, hc] using all

theorem exists_isDigit_toDigits (k : Nat) :
    ∃ c cs, Nat.toDigits 10 k = c :: cs ∧ c.isDigit = true := by
  obtain ⟨c, cs, front⟩ := List.exists_cons_of_ne_nil (Nat.toDigits_ne_nil (n := k) (b := 10))
  have member : c ∈ Nat.toDigits 10 k := by simp [front]
  exact ⟨c, cs, front, Nat.isDigit_of_mem_toDigits (by decide) (by decide) member⟩

theorem numberParts_toDigits (k : Nat) {rest : List Char} (hr : EndsNumber rest) :
    numberParts (Nat.toDigits 10 k ++ rest) =
      some ⟨[], Nat.toDigits 10 k, [], 0, (Nat.toDigits 10 k).length⟩ := by
  have integer := integerDigits_toDigits k hr
  have behind : (Nat.toDigits 10 k ++ rest).drop (Nat.toDigits 10 k).length = rest :=
    List.drop_left
  obtain ⟨c, cs, front, digit⟩ := exists_isDigit_toDigits k
  have unsigned : c ≠ '-' := by
    rintro rfl
    cases digit
  rw [front, List.cons_append] at integer behind ⊢
  simp only [numberParts]
  split
  · simp_all
  · simp only [List.length_nil, List.drop_zero, integer, List.isEmpty_cons, Bool.false_eq_true,
      if_false, Nat.zero_add, behind, fractionDigits_of_endsNumber hr]
    simp only [bind, Option.bind, Nat.add_zero, behind, exponentPart_of_endsNumber hr]
    rfl

theorem takes_number {k : Nat} (h : k < Nat.pow 2 64) {rest : List Char} (hr : EndsNumber rest) :
    Takes number (Nat.toDigits 10 k ++ rest) (.number (toString k)) rest := by
  have fits : 0 < (Nat.toDigits 10 k).length ∧
      (Nat.toDigits 10 k).length ≤ (Nat.toDigits 10 k ++ rest).length :=
    ⟨Nat.length_toDigits_pos, by simp⟩
  have lexeme : String.ofList ((Nat.toDigits 10 k ++ rest).take (Nat.toDigits 10 k).length) =
      toString k := by
    rw [List.take_left, Nat.toString_eq_ofList_toDigits]
  rw [Takes, number, numberParts_toDigits k hr]
  simp only [Numeral.inProductRange_toDigits h, if_true, takeChars, dif_pos fits, lexeme]
  exact ⟨_, rfl, List.drop_left⟩

/-! ### Strings -/

theorem hexValue?_digitChar : ∀ n < 16, hexValue? (Nat.digitChar n) = some n := by
  decide

theorem unitChar?_toNat (c : Char) : unitChar? c.toNat = some c := by
  have hv : c.toNat.isValidChar := c.valid
  rw [unitChar?, dif_pos hv]
  rfl

theorem takes_plainEscape {c e : Char} (h : plainEscape? e = some c) (he : e ≠ 'u')
    (rest : List Char) : Takes stringChar ('\\' :: e :: rest) (some c) rest := by
  refine ⟨⟨rest, by simp +arith⟩, ?_, rfl⟩
  simp [stringChar, h, he]

theorem takes_unit {c : Char} {n m : Nat} (hn : n < 16) (hm : m < 16) (h : n * 16 + m = c.toNat)
    (rest : List Char) :
    Takes stringChar
      ('\\' :: 'u' :: '0' :: '0' :: Nat.digitChar n :: Nat.digitChar m :: rest) (some c) rest := by
  have unit : hexNumber? ['0', '0', Nat.digitChar n, Nat.digitChar m] = some c.toNat := by
    simp [hexNumber?, hexValue?_digitChar n hn, hexValue?_digitChar m hm, ← h,
      show hexValue? '0' = some 0 from rfl]
  refine ⟨⟨rest, by simp +arith⟩, ?_, rfl⟩
  -- the reader looks ahead for the second half of a pair, which a character of its own does not need
  by_cases hp : ∃ e f g h more, rest = '\\' :: 'u' :: e :: f :: g :: h :: more
  · obtain ⟨e, f, g, h, more, rfl⟩ := hp
    simp [stringChar, unit, unitChar?_toNat]
  · rw [stringChar]
    · simp [unit, unitChar?_toNat]
    · intro e f g h more he
      exact hp ⟨e, f, g, h, more, he⟩

theorem takes_escapeChar (c : Char) (rest : List Char) :
    Takes stringChar (escapeChar c ++ rest) (some c) rest := by
  rw [escapeChar]
  iterate 7
    split
    · subst c
      exact takes_plainEscape rfl (by decide) rest
  split
  · exact takes_unit (by omega) (by omega) (by omega) rest
  · refine ⟨.tail _ _, ?_, rfl⟩
    simp_all [stringChar]

theorem takes_stringBody (s : String) (rest : List Char) :
    Takes stringBody (s.toList.flatMap escapeChar ++ '"' :: rest) s rest := by
  have chars : ∀ cs : List Char,
      Takes (untilNone stringChar) (cs.flatMap escapeChar ++ '"' :: rest) cs rest := by
    intro cs
    induction cs with
    | nil => exact untilNone_nil ⟨.tail _ _, rfl, rfl⟩
    | cons c cs ih =>
      rw [List.flatMap_cons, List.append_assoc]
      exact untilNone_cons (takes_escapeChar c _) ih
  obtain ⟨last, hr, hl⟩ := chars s.toList
  exact ⟨last, by simp [stringBody, hr], hl⟩

/-! ### Printed values -/

theorem skip_cons {c : Char} (hc : isSpace c = false) (cs : List Char) :
    skip (c :: cs) = c :: cs := by
  rw [skip, List.dropWhile_cons_of_neg (by simp [hc])]

theorem skip_newline (level : Nat) (cs : List Char) :
    skip ((newline level).toList ++ cs) = skip cs := by
  have blank : ∀ c ∈ (newline level).toList, isSpace c = true := by
    intro c hc
    rw [newline, String.toList_append, List.mem_append] at hc
    rcases hc with hc | hc
    · obtain rfl : c = '\n' := by simpa using hc
      rfl
    · rw [String.toList_ofList] at hc
      rw [List.eq_of_mem_replicate hc]
      rfl
  rw [skip, List.dropWhile_append_of_pos blank, skip]

theorem endsNumber_of_isSpace {c : Char} (hc : isSpace c = true) (cs : List Char) :
    EndsNumber (c :: cs) := by
  rw [endsNumber_cons_iff]
  simp only [isSpace, Bool.or_eq_true, decide_eq_true_eq] at hc
  rcases hc with ((rfl | rfl) | rfl) | rfl <;> decide

/-- The reader takes the text off whatever stands behind it, as long as no number goes on there, and the
text starts with a character that is neither space nor a closing bracket. -/
structure Prints {α : Type} (read : Reader α) (text : String) (a : α) : Prop where
  front : ∃ c cs, text.toList = c :: cs ∧ isSpace c = false ∧ c ≠ ']' ∧ c ≠ '\x7d'
  takes : ∀ rest, EndsNumber rest → Takes read (text.toList ++ rest) a rest

variable {α : Type} {read : Reader α} {text : String} {texts : List String} {a : α} {as : List α}

theorem Prints.skip_append (h : Prints read text a) (rest : List Char) :
    skip (text.toList ++ rest) = text.toList ++ rest := by
  obtain ⟨c, cs, ht, hc, -⟩ := h.front
  rw [ht, List.cons_append, skip_cons hc]

theorem Prints.takes_line (h : Prints read text a) (level : Nat) {rest : List Char}
    (hr : EndsNumber rest) :
    Takes read (skip ((newline level).toList ++ (text.toList ++ rest))) a rest := by
  rw [skip_newline, h.skip_append]
  exact h.takes rest hr

/-- The items of a block and its closing bracket, from behind the opening one. -/
theorem takes_items {close : Char} (hc : close = ']' ∨ close = '\x7d') (level inner : Nat)
    (h : List.Forall₂ (Prints read) texts as) (hn : texts ≠ []) (rest : List Char) :
    Takes ((brackets close).items read) ((newline inner).toList ++
      ((("," ++ newline inner).intercalate texts).toList ++
        ((newline level).toList ++ close :: rest))) as rest := by
  have visible : isSpace close = false ∧ close ≠ ',' := by
    rcases hc with rfl | rfl <;> decide
  have comma (cs : List Char) : (brackets close).skip (',' :: cs) = ',' :: cs ∧
      EndsNumber (',' :: cs) :=
    ⟨skip_cons (c := ',') rfl cs, endsNumber_cons_iff.2 (by decide)⟩
  have lineBreak (cs : List Char) : EndsNumber ((newline level).toList ++ cs) := by
    rw [newline, String.toList_append, List.append_assoc]
    exact endsNumber_of_isSpace rfl _
  induction h with
  | nil => exact absurd rfl hn
  | @cons text a texts as ht h ih =>
    cases h with
    | nil =>
      rw [String.intercalate_singleton]
      refine Brackets.items_last (ht.takes_line inner (lineBreak _)) ?_
      show skip _ = close :: rest
      rw [skip_newline, skip_cons visible.1]
    | cons ht' h =>
      rw [String.intercalate_cons_cons, String.toList_append, String.toList_append,
        String.toList_append, List.append_assoc, List.append_assoc, List.append_assoc,
        show ",".toList = [','] from rfl, List.singleton_append]
      exact Brackets.items_cons (ht.takes_line inner (comma _).2) (comma _).1 visible.2 rfl
        (ih (by simp))

theorem exists_toList_intercalate (sep text : String) (texts : List String) :
    ∃ cs, (sep.intercalate (text :: texts)).toList = text.toList ++ cs := by
  cases texts with
  | nil => exact ⟨[], by rw [String.intercalate_singleton, List.append_nil]⟩
  | cons other texts =>
    rw [String.intercalate_cons_cons, String.append_assoc, String.toList_append]
    exact ⟨_, rfl⟩

/-- A block is its opening bracket and what the reader of bracketed items takes. -/
theorem exists_takes_block {o c : Char} {opening closing : String} (ho : opening.toList = [o])
    (hc : closing.toList = [c]) (close : c = ']' ∨ c = '\x7d') (level : Nat)
    (h : List.Forall₂ (Prints read) texts as) :
    ∃ body, (block level opening closing texts).toList = o :: body ∧
      ∀ rest, Takes ((brackets c).list read) (body ++ rest) as rest := by
  cases h with
  | nil =>
    refine ⟨[c], by simp [block, ho, hc], fun rest => Brackets.list_nil (skip_cons ?_ rest)⟩
    rcases close with rfl | rfl <;> rfl
  | @cons text a texts as ht h =>
    refine ⟨(newline (level + 1)).toList ++ ((("," ++ newline (level + 1)).intercalate
      (text :: texts)).toList ++ ((newline level).toList ++ [c])), ?_, fun rest => ?_⟩
    · simp only [block, List.isEmpty_cons, Bool.false_eq_true, if_false, String.toList_append, ho, hc,
        List.append_assoc, List.cons_append, List.nil_append]
    · have items := takes_items close level (level + 1) (.cons ht h) (by simp) rest
      obtain ⟨first, more, front, space, square, brace⟩ := ht.front
      obtain ⟨behind, hb⟩ := exists_toList_intercalate ("," ++ newline (level + 1)) text texts
      rw [List.append_assoc, List.append_assoc, List.append_assoc, List.singleton_append]
      have visible : (brackets c).skip ((newline (level + 1)).toList ++
          ((("," ++ newline (level + 1)).intercalate (text :: texts)).toList ++
            ((newline level).toList ++ c :: rest))) =
          first :: (more ++ (behind ++ ((newline level).toList ++ c :: rest))) := by
        show skip _ = _
        rw [skip_newline, hb, front, List.append_assoc, List.cons_append, skip_cons space]
      have ne : first ≠ c := by rcases close with rfl | rfl <;> assumption
      exact Brackets.list_of_items visible ne items

/-! ### Values -/

/-- Data without moments and without numbers other than counts of 64 bits, with at most that many lists
and records inside each other. -/
inductive Plain : Nat → Datum → Prop
  | null (n : Nat) : Plain n .null
  | bool (n : Nat) (b : Bool) : Plain n (.bool b)
  | count (n : Nat) {k : Nat} (h : k < Nat.pow 2 64) : Plain n (.number (toString k))
  | text (n : Nat) (s : String) : Plain n (.text s)
  | list {n : Nat} {items : List Datum} (h : ∀ v ∈ items, Plain n v) : Plain (n + 1) (.list items)
  | record {n : Nat} {members : List (String × Datum)} (h : ∀ m ∈ members, Plain n m.2) :
    Plain (n + 1) (.record members)

theorem plain_list_iff {n : Nat} {items : List Datum} :
    Plain (n + 1) (.list items) ↔ ∀ v ∈ items, Plain n v :=
  ⟨fun h => by cases h; assumption, .list⟩

theorem plain_record_iff {n : Nat} {members : List (String × Datum)} :
    Plain (n + 1) (.record members) ↔ ∀ m ∈ members, Plain n m.2 :=
  ⟨fun h => by cases h; assumption, .record⟩

/-- A value that opens no bracket is read the same way at every depth. -/
theorem Prints.value_of_scalar {v : Datum} (h : Prints scalar text v) {c : Char} {cs : List Char}
    (ht : text.toList = c :: cs) (hl : c ≠ '[') (hr : c ≠ '\x7b') (n : Nat) :
    Prints (value n) text v := by
  refine ⟨h.front, fun rest hr => ?_⟩
  have taken := h.takes rest hr
  rw [ht, List.cons_append] at taken ⊢
  cases n with
  | zero => exact taken
  | succ n =>
    have same : value (n + 1) (c :: (cs ++ rest)) = scalar (c :: (cs ++ rest)) := by
      generalize hcs : c :: (cs ++ rest) = all
      rw [value]
      dsimp only
      split <;> simp_all
    rw [Takes, same]
    exact taken

theorem prints_null (n : Nat) : Prints (value n) "null" .null := by
  have printed : Prints scalar "null" .null :=
    ⟨⟨'n', _, rfl, by decide⟩, fun rest _ => ⟨⟨rest, by simp +arith⟩, rfl, rfl⟩⟩
  exact printed.value_of_scalar rfl (by decide) (by decide) n

theorem prints_bool (n : Nat) (b : Bool) :
    Prints (value n) (if b then "true" else "false") (.bool b) := by
  cases b with
  | false =>
    have printed : Prints scalar "false" (.bool false) :=
      ⟨⟨'f', _, rfl, by decide⟩, fun rest _ => ⟨⟨rest, by simp +arith⟩, rfl, rfl⟩⟩
    exact printed.value_of_scalar rfl (by decide) (by decide) n
  | true =>
    have printed : Prints scalar "true" (.bool true) :=
      ⟨⟨'t', _, rfl, by decide⟩, fun rest _ => ⟨⟨rest, by simp +arith⟩, rfl, rfl⟩⟩
    exact printed.value_of_scalar rfl (by decide) (by decide) n

theorem prints_count (n : Nat) {k : Nat} (h : k < Nat.pow 2 64) :
    Prints (value n) (toString k) (.number (toString k)) := by
  have shape : (toString k).toList = Nat.toDigits 10 k := by
    rw [Nat.toString_eq_ofList_toDigits, String.toList_ofList]
  obtain ⟨c, cs, front, digit⟩ := exists_isDigit_toDigits k
  have other (c' : Char) (hc : c'.isDigit = false) : c ≠ c' := by
    rintro rfl
    cases digit.symm.trans hc
  have printed : Prints scalar (toString k) (.number (toString k)) := by
    refine ⟨⟨c, cs, shape.trans front, ?_, other _ rfl, other _ rfl⟩, fun rest hr => ?_⟩
    · simp [isSpace, other]
    · have taken := takes_number h hr
      rw [shape, front, List.cons_append]
      rw [front, List.cons_append] at taken
      have same : scalar (c :: (cs ++ rest)) = number (c :: (cs ++ rest)) := by
        rw [scalar] <;> simp [other]
      rw [Takes, same]
      exact taken
  exact printed.value_of_scalar (shape.trans front) (other _ rfl) (other _ rfl) n

theorem toList_quote (s : String) :
    (quote s).toList = '"' :: (s.toList.flatMap escapeChar ++ ['"']) := by
  simp [quote]

theorem prints_text (n : Nat) (s : String) : Prints (value n) (quote s) (.text s) := by
  have printed : Prints scalar (quote s) (.text s) := by
    refine ⟨⟨'"', _, toList_quote s, by decide⟩, fun rest _ => ?_⟩
    obtain ⟨last, hr, hl⟩ := takes_stringBody s rest
    rw [toList_quote, List.cons_append, List.append_assoc, List.singleton_append]
    exact ⟨last.behind _, by simp [scalar, hr], hl⟩
  exact printed.value_of_scalar (toList_quote s) (by decide) (by decide) n

theorem takes_member {read : Reader Datum} {cs rest more last : List Char} {name : String} {v : Datum}
    (hn : Takes stringBody cs name rest) (hs : skip rest = ':' :: more)
    (hv : Takes read (skip more) v last) : Takes (member read) ('"' :: cs) (name, v) last := by
  obtain ⟨behind, hb, rfl⟩ := hn
  obtain ⟨final, hf, rfl⟩ := hv
  simp only [Takes, member, hb]
  split
  · rename_i more' hm
    obtain rfl : more' = more := by simpa [hm] using hs
    simp [hf]
  · simp_all

theorem Prints.member {v : Datum} {n : Nat} (h : Prints (value n) text v) (name : String) :
    Prints (member (value n)) (quote name ++ ": " ++ text) (name, v) := by
  have shape : (quote name ++ ": " ++ text).toList =
      '"' :: (name.toList.flatMap escapeChar ++ '"' :: ':' :: ' ' :: text.toList) := by
    simp [toList_quote]
  refine ⟨⟨'"', _, shape, by decide⟩, fun rest hr => ?_⟩
  have space : Takes (value n) (skip (' ' :: (text.toList ++ rest))) v rest := by
    rw [show skip (' ' :: (text.toList ++ rest)) = text.toList ++ rest from h.skip_append rest]
    exact h.takes rest hr
  have taken := takes_member (takes_stringBody name (':' :: ' ' :: (text.toList ++ rest)))
    (skip_cons rfl _) space
  rw [shape]
  simpa using taken

theorem prints_list {n level : Nat} {items : List Datum}
    (h : List.Forall₂ (Prints (value n)) texts items) :
    Prints (value (n + 1)) (block level "[" "]" texts) (.list items) := by
  obtain ⟨body, shape, taken⟩ := exists_takes_block (show "[".toList = ['['] from rfl)
    (show "]".toList = [']'] from rfl) (.inl rfl) level h
  refine ⟨⟨'[', body, shape, by decide⟩, fun rest _ => ?_⟩
  obtain ⟨last, hr, hl⟩ := taken rest
  rw [shape, List.cons_append]
  exact ⟨last.behind _, by simp [value, hr], hl⟩

theorem prints_record {n level : Nat} {members : List (String × Datum)}
    (h : List.Forall₂ (Prints (member (value n))) texts members) :
    Prints (value (n + 1)) (block level "\x7b" "\x7d" texts) (.record members) := by
  obtain ⟨body, shape, taken⟩ := exists_takes_block (show "\x7b".toList = ['\x7b'] from rfl)
    (show "\x7d".toList = ['\x7d'] from rfl) (.inr rfl) level h
  refine ⟨⟨'\x7b', body, shape, by decide⟩, fun rest _ => ?_⟩
  obtain ⟨last, hr, hl⟩ := taken rest
  rw [shape, List.cons_append]
  exact ⟨last.behind _, by simp [value, hr], hl⟩

theorem forall₂_prettyItems {n level : Nat} {items : List Datum}
    (h : ∀ v ∈ items, Prints (value n) (pretty level v) v) :
    List.Forall₂ (Prints (value n)) (prettyItems level items) items := by
  induction items with
  | nil => exact .nil
  | cons item rest ih =>
    rw [List.forall_mem_cons] at h
    exact .cons h.1 (ih h.2)

theorem forall₂_prettyMembers {n level : Nat} {members : List (String × Datum)}
    (h : ∀ m ∈ members, Prints (value n) (pretty level m.2) m.2) :
    List.Forall₂ (Prints (member (value n))) (prettyMembers level members) members := by
  induction members with
  | nil => exact .nil
  | cons m rest ih =>
    rw [List.forall_mem_cons] at h
    exact .cons (h.1.member m.1) (ih h.2)

theorem Plain.prints {n : Nat} {v : Datum} (h : Plain n v) (level : Nat) :
    Prints (value n) (pretty level v) v := by
  induction h generalizing level with
  | null n => exact prints_null n
  | bool n b => exact prints_bool n b
  | count n h => exact prints_count n h
  | text n s => exact prints_text n s
  | list h ih => exact prints_list (forall₂_prettyItems fun v hv => ih v hv (level + 1))
  | record h ih => exact prints_record (forall₂_prettyMembers fun m hm => ih m hm (level + 1))

/-- What is printed at the outermost level is a document that holds the value, also with space
behind it. -/
theorem Plain.parse_pretty_append {v : Datum} (h : Plain maxDepth v) {behind : String}
    (hb : ∀ c ∈ behind.toList, isSpace c = true) : parse (pretty 0 v ++ behind) = some v := by
  have printed := h.prints 0
  have ends : EndsNumber behind.toList := by
    cases hc : behind.toList with
    | nil => exact nofun
    | cons c cs => exact endsNumber_of_isSpace (hb c (by simp [hc])) cs
  have blank : skip behind.toList = [] := by
    rw [skip, ← List.append_nil behind.toList, List.dropWhile_append_of_pos hb]
    rfl
  have taken : Takes (value maxDepth) (skip (pretty 0 v ++ behind).toList) v behind.toList := by
    rw [String.toList_append, printed.skip_append]
    exact printed.takes behind.toList ends
  obtain ⟨last, hr, hl⟩ := taken
  rw [parse, hr]
  simp [hl, blank]

theorem Plain.parse_pretty {v : Datum} (h : Plain maxDepth v) : parse (pretty 0 v) = some v := by
  rw [← String.append_empty (s := pretty 0 v)]
  exact h.parse_pretty_append nofun

end Datum.Json

end LayeredSql
