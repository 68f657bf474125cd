import LayeredSql.Proofs.FragmentGrammar
import Mathlib.Data.List.DropRight

/-!
# Texts of valid expressions

What the lexical check lets through, and how stable it is. The check refuses every NUL that it looks at,
but behind a backslash that escapes it takes the next character unseen. So BigQuery fragments can hold a
NUL there and nowhere else, and PostgreSQL fragments none at all.

The text of a valid expression is a valid fragment again and makes the same expression: the blanks that
are dropped at the ends stand outside quoted text, and a quoted name has none there.
-/

namespace LayeredSql

namespace Fragment

/-! ### NUL -/

theorem checkedStep_eq_ok_iff {d : Dialect} {s t : State} {c : Char} :
    checkedStep d s c = .ok t ↔ step d s c = .ok t ∧ (c = '\x00' → s.mode.looks = false) := by
  unfold checkedStep
  by_cases hc : c = '\x00' <;> cases hs : s.mode.looks <;> simp [hc]

theorem checkedRun_cons_eq_ok_iff {d : Dialect} {s t : State} {c : Char} {cs : List Char} :
    checkedRun d s (c :: cs) = .ok t ↔
      ∃ u, checkedStep d s c = .ok u ∧ checkedRun d u cs = .ok t := by
  rw [checkedRun_cons]
  cases checkedStep d s c with
  | error p => simp [Except.bind]
  | ok u => simp [Except.bind]

/-- The machine does not look at any NUL of the text. -/
def OverlooksNul (d : Dialect) (s : State) (cs : List Char) : Prop :=
  ∀ front back, cs = front ++ '\x00' :: back → ∃ u, run d s front = .ok u ∧ u.mode.looks = false

theorem overlooksNul_cons_iff {d : Dialect} {s u : State} {c : Char} {cs : List Char}
    (h : step d s c = .ok u) :
    OverlooksNul d s (c :: cs) ↔ (c = '\x00' → s.mode.looks = false) ∧ OverlooksNul d u cs := by
  constructor
  · intro all
    refine ⟨?_, ?_⟩
    · rintro rfl
      obtain ⟨v, hv, looks⟩ := all [] cs rfl
      cases hv
      exact looks
    · rintro front back rfl
      obtain ⟨v, hv, looks⟩ := all (c :: front) back rfl
      rw [run_cons, h] at hv
      exact ⟨v, hv, looks⟩
  · rintro ⟨first, others⟩ front back eq
    cases front with
    | nil =>
      cases eq
      exact ⟨s, rfl, first rfl⟩
    | cons x front =>
      cases eq
      obtain ⟨v, hv, looks⟩ := others front back rfl
      refine ⟨v, ?_, looks⟩
      rw [run_cons, h]
      exact hv

theorem checkedRun_eq_ok_iff {d : Dialect} {s t : State} {cs : List Char} :
    checkedRun d s cs = .ok t ↔ run d s cs = .ok t ∧ OverlooksNul d s cs := by
  -- along the text: whether a character is looked at depends on the state in front of it
  induction cs generalizing s with
  | nil =>
    have none : OverlooksNul d s [] := fun front back eq => absurd eq (by simp)
    exact (and_iff_left none).symm
  | cons c cs ih =>
    rw [checkedRun_cons_eq_ok_iff, run_cons_eq_ok_iff]
    constructor
    · rintro ⟨u, hu, hr⟩
      obtain ⟨hs, first⟩ := checkedStep_eq_ok_iff.1 hu
      obtain ⟨run, others⟩ := ih.1 hr
      exact ⟨⟨u, hs, run⟩, (overlooksNul_cons_iff hs).2 ⟨first, others⟩⟩
    · rintro ⟨⟨u, hs, run⟩, all⟩
      obtain ⟨first, others⟩ := (overlooksNul_cons_iff hs).1 all
      exact ⟨u, checkedStep_eq_ok_iff.2 ⟨hs, first⟩, ih.2 ⟨run, others⟩⟩

/-- The text ends with a backslash inside quoted text that takes the next character with it. -/
def EndsInEscape (d : Dialect) (front : List Char) : Prop :=
  d = .bigQuery ∧ ∃ before q n, front = before ++ ['\\'] ∧ run d .start before = .ok ⟨.quoted q, n⟩

theorem looks_of_codeStep {d : Dialect} {n : Nat} {c : Char} {t : State}
    (h : codeStep d n c = .ok t) : t.mode.looks = true := by
  rcases (codeStep_eq_ok_iff d n c t).1 h with
    ⟨-, rfl⟩ | ⟨-, rfl⟩ | ⟨-, m, -, rfl⟩ | ⟨-, rfl⟩ | ⟨-, rfl⟩ | ⟨-, rfl⟩ <;> rfl

theorem looks_eq_false_of_step {d : Dialect} {s t : State} {c : Char} (h : step d s c = .ok t)
    (ht : t.mode.looks = false) : d = .bigQuery ∧ c = '\\' ∧ ∃ q n, s = ⟨.quoted q, n⟩ := by
  obtain ⟨mode, depth⟩ := s
  rcases step_cases h with ⟨-, code⟩ | ⟨q, rfl, hc, he, rfl⟩ | ⟨q, -, -, rfl⟩ | ⟨q, rfl, -, rfl⟩ |
    ⟨q, -, rfl⟩ | ⟨q, -, -, rfl⟩
  case inr.inl => exact ⟨(escapesByBackslash_iff d).1 he, hc, q, depth, rfl⟩
  case inl =>
    rw [looks_of_codeStep code] at ht
    cases ht
  all_goals cases ht

theorem exists_looks_eq_false_iff {d : Dialect} {front : List Char} :
    (∃ u, run d .start front = .ok u ∧ u.mode.looks = false) ↔ EndsInEscape d front := by
  constructor
  · rintro ⟨u, hu, looks⟩
    rcases List.eq_nil_or_concat front with rfl | ⟨before, c, rfl⟩
    · cases hu
      cases looks
    · rw [List.concat_eq_append] at hu ⊢
      obtain ⟨s, hs, hc⟩ := run_append_eq_ok_iff.1 hu
      obtain ⟨v, hv, last⟩ := run_cons_eq_ok_iff.1 hc
      cases last
      obtain ⟨dialect, rfl, q, n, rfl⟩ := looks_eq_false_of_step hv looks
      exact ⟨dialect, before, q, n, rfl, hs⟩
  · rintro ⟨rfl, before, q, n, rfl, hb⟩
    exact ⟨⟨.escaped q, n⟩, run_append_eq_ok_iff.2 ⟨_, hb, rfl⟩, rfl⟩

theorem runProblem_eq_none_iff_nul_escaped (d : Dialect) (cs : List Char) :
    runProblem d cs = none ↔ Items d cs [] ∧
      ∀ front back, cs = front ++ '\x00' :: back → EndsInEscape d front := by
  have escaped : OverlooksNul d .start cs ↔
      ∀ front back, cs = front ++ '\x00' :: back → EndsInEscape d front :=
    forall₃_congr fun front back eq => exists_looks_eq_false_iff
  rw [runProblem_eq_none_iff, ← run_closes_iff_items, ← escaped]
  simp only [checkedRun_eq_ok_iff]
  constructor
  · rintro ⟨t, ⟨run, all⟩, ends⟩
    exact ⟨⟨t, run, ends⟩, all⟩
  · rintro ⟨⟨t, run, ends⟩, all⟩
    exact ⟨t, ⟨run, all⟩, ends⟩

/-- The accepted fragments that hold a NUL are those of BigQuery in which every NUL stands behind a
backslash that escapes it inside quoted text. -/
theorem nul_accepted_iff_escaped (d : Dialect) (sql : String) :
    (Expr.ofFragment d sql).isValid = true ∧ '\x00' ∈ sql.toList ↔
      d = .bigQuery ∧ '\x00' ∈ sql.toList ∧ Items d sql.toList [] ∧
        ∀ front back, sql.toList = front ++ '\x00' :: back →
          ∃ before q n, front = before ++ ['\\'] ∧ run d .start before = .ok ⟨.quoted q, n⟩ := by
  rw [isValid_ofFragment_iff, problem_eq_none_iff, runProblem_eq_none_iff_nul_escaped]
  constructor
  · rintro ⟨⟨-, items, all⟩, mem⟩
    obtain ⟨front, back, split⟩ := List.append_of_mem mem
    exact ⟨(all front back split).1, mem, items, fun front back eq => (all front back eq).2⟩
  · rintro ⟨dialect, mem, items, all⟩
    have visible : Text.isBlankText sql = false := by
      rw [Text.isBlankText, List.all_eq_false]
      exact ⟨'\x00', mem, by decide⟩
    exact ⟨⟨visible, items, fun front back eq => ⟨dialect, all front back eq⟩⟩, mem⟩

/-- An escape takes a NUL past the check, in a literal and in a quoted name. -/
theorem nul_accepted_behind_backslash :
    ((Expr.ofFragment .bigQuery "'\\\x00'").isValid = true ∧ '\x00' ∈ "'\\\x00'".toList) ∧
      (Expr.ofFragment .bigQuery "f(\x60a\\\x00\x60)").isValid = true ∧
      '\x00' ∈ "f(\x60a\\\x00\x60)".toList := by
  decide +kernel

end Fragment

/-! ### Blanks at the ends -/

namespace Text

theorem trimChars_of_visibleEnds {cs : List Char} (h : VisibleEnds cs) : trimChars cs = cs := by
  cases cs with
  | nil => rfl
  | cons c rest =>
    have first : isBlank c = false := h.1 c rfl
    have front : (c :: rest).dropWhile isBlank = c :: rest :=
      List.dropWhile_cons_of_neg (by simp [first])
    have back : List.rdropWhile isBlank (c :: rest) = c :: rest := by
      rw [List.rdropWhile_eq_self_iff]
      intro some
      rw [h.2 _ (List.getLast?_eq_some_getLast some)]
      decide
    rw [trimChars, front]
    exact back

theorem visibleEnds_trimChars (cs : List Char) : VisibleEnds (trimChars cs) := by
  constructor
  · intro c hc
    -- what is left of the text begins where the text without its front does
    obtain ⟨more, split⟩ := List.rdropWhile_prefix isBlank (cs.dropWhile isBlank)
    change c ∈ (List.rdropWhile isBlank (cs.dropWhile isBlank)).head? at hc
    cases hs : List.rdropWhile isBlank (cs.dropWhile isBlank) with
    | nil =>
      rw [hs] at hc
      cases hc
    | cons x rest =>
      rw [hs] at hc split
      cases hc
      have head := List.head?_dropWhile_not isBlank cs
      rw [← split] at head
      simpa using head
  · intro c hc
    change c ∈ (List.rdropWhile isBlank (cs.dropWhile isBlank)).getLast? at hc
    obtain ⟨some, rfl⟩ := List.mem_getLast?_eq_getLast hc
    exact Bool.not_eq_true _ ▸ List.rdropWhile_last_not isBlank _ some

theorem trim_trim (s : String) : trim (trim s) = trim s := by
  have same := trimChars_of_visibleEnds (visibleEnds_trimChars s.toList)
  rw [trim, toList_trim, same]
  rfl

end Text

namespace Expr

open Fragment

theorem trim_quote (d : Dialect) (name : String) : Text.trim (d.quote name) = d.quote name := by
  rw [Text.trim, Text.trimChars_of_visibleEnds (visibleEnds_quote d name), String.ofList_toList]

theorem ofFragment_of_problem {d : Dialect} {sql : String} (h : problem d sql = none) :
    ofFragment d sql =
      .native ⟨d, Text.trim sql, true, fun _ => (problem_trim_eq_none_iff d sql).2 h⟩ :=
  dif_pos h

theorem ofFragment_trim {d : Dialect} {sql : String} (h : problem d sql = none) :
    ofFragment d (Text.trim sql) = ofFragment d sql := by
  rw [ofFragment_of_problem h, ofFragment_of_problem ((problem_trim d sql).trans h)]
  simp only [Text.trim_trim]

theorem ofFragment_quote {d : Dialect} {name : String} (h : d.isLegal name = true) :
    ofFragment d (d.quote name) = ofColumn d name := by
  rw [ofFragment_of_problem (problem_quote h), ofColumn, dif_pos h]
  simp only [trim_quote]

/-- The text of a valid expression, given as a fragment, makes the same expression again, whether it was
made from a fragment or from a column; and the check finds the same with and without blanks at the
ends. -/
theorem valid_text_makes_same_expression (d : Dialect) :
    (∀ sql, problem d (Text.trim sql) = problem d sql) ∧
    (∀ sql, (ofFragment d sql).isValid = true →
      ofFragment d (ofFragment d sql).text = ofFragment d sql) ∧
    ∀ name, (ofColumn d name).isValid = true →
      ofFragment d (ofColumn d name).text = ofColumn d name := by
  refine ⟨problem_trim d, ?_, ?_⟩
  · intro sql valid
    have accepted := (isValid_ofFragment_iff d sql).1 valid
    have text : (ofFragment d sql).text = Text.trim sql := by
      rw [ofFragment_of_problem accepted]
      rfl
    rw [text, ofFragment_trim accepted]
  · intro name valid
    have legal : d.isLegal name = true := by
      by_contra illegal
      rw [ofColumn, dif_neg illegal] at valid
      cases valid
    rw [(ofColumn_of_isLegal legal).1, ofFragment_quote legal]

/-- A literal with a blank and an escaped quote at its end, between blanks; and a name that begins and
ends with blanks and holds a quote. -/
theorem valid_text_makes_same_expression_blanks :
    ((ofFragment .bigQuery "\t'it\\' ' \n").isValid = true ∧
      (ofFragment .bigQuery "\t'it\\' ' \n").text = "'it\\' '" ∧
      ofFragment .bigQuery (ofFragment .bigQuery "\t'it\\' ' \n").text =
        ofFragment .bigQuery "\t'it\\' ' \n") ∧
    (ofColumn .postgreSql " a\"b ").isValid = true ∧
      (ofColumn .postgreSql " a\"b ").text = "\" a\"\"b \"" ∧
      ofFragment .postgreSql (ofColumn .postgreSql " a\"b ").text =
        ofColumn .postgreSql " a\"b " := by
  have fragment : (ofFragment .bigQuery "\t'it\\' ' \n").isValid = true := by decide +kernel
  have column : (ofColumn .postgreSql " a\"b ").isValid = true := by decide +kernel
  exact ⟨⟨fragment, by decide +kernel,
      (valid_text_makes_same_expression .bigQuery).2.1 _ fragment⟩,
    column, by decide +kernel, (valid_text_makes_same_expression .postgreSql).2.2 _ column⟩

end Expr

end LayeredSql
