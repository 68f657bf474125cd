import LayeredSql.Fragment

/-! # Texts that pass the lexical check

Two facts about the check of fragments: a fragment that passes still passes once the blanks at its
ends are dropped, and every legal name passes in the form in which it stands in a statement. -/

namespace LayeredSql.Fragment

theorem checkedRun_nil (d : Dialect) (s : State) : checkedRun d s [] = .ok s := rfl

theorem checkedRun_cons (d : Dialect) (s : State) (c : Char) (cs : List Char) :
    checkedRun d s (c :: cs) = (checkedStep d s c).bind fun t => checkedRun d t cs := rfl

theorem checkedRun_append (d : Dialect) (s : State) (xs ys : List Char) :
    checkedRun d s (xs ++ ys) = (checkedRun d s xs).bind fun t => checkedRun d t ys := by
  induction xs generalizing s with
  | nil => rfl
  | cons x xs ih =>
    rw [List.cons_append, checkedRun_cons, checkedRun_cons]
    cases checkedStep d s x with
    | error p => rfl
    | ok t => exact ih t

theorem run_nil (d : Dialect) (s : State) : run d s [] = .ok s := rfl

theorem run_cons (d : Dialect) (s : State) (c : Char) (cs : List Char) :
    run d s (c :: cs) = (step d s c).bind fun t => run d t cs := rfl

theorem run_append (d : Dialect) (s : State) (xs ys : List Char) :
    run d s (xs ++ ys) = (run d s xs).bind fun t => run d t ys := by
  induction xs generalizing s with
  | nil => rfl
  | cons x xs ih =>
    rw [List.cons_append, run_cons, run_cons]
    cases step d s x with
    | error p => rfl
    | ok t => exact ih t

theorem run_append_eq_ok_iff {d : Dialect} {s t : State} {xs ys : List Char} :
    run d s (xs ++ ys) = .ok t ↔ ∃ u, run d s xs = .ok u ∧ run d u ys = .ok t := by
  rw [run_append]
  cases run d s xs with
  | error p => simp [Except.bind]
  | ok u => simp [Except.bind]

theorem run_cons_eq_ok_iff {d : Dialect} {s t : State} {c : Char} {cs : List Char} :
    run d s (c :: cs) = .ok t ↔ ∃ u, step d s c = .ok u ∧ run d u cs = .ok t := by
  rw [run_cons]
  cases step d s c with
  | error p => simp [Except.bind]
  | ok u => simp [Except.bind]

/-- Without the NUL character the check of NUL changes nothing. -/
theorem checkedRun_eq_run (d : Dialect) (s : State) (cs : List Char) (h : ∀ c ∈ cs, c ≠ '\x00') :
    checkedRun d s cs = run d s cs := by
  induction cs generalizing s with
  | nil => rfl
  | cons c cs ih =>
    have hc : checkedStep d s c = step d s c := by
      simp [checkedStep, h c (by simp)]
    rw [checkedRun_cons, run_cons, hc]
    cases step d s c with
    | error p => rfl
    | ok t => exact ih t fun x hx => h x (by simp [hx])

/-! ### What one step can do -/

/-- The characters that open quoted text. -/
def IsDelimiter (d : Dialect) (q : Char) : Prop :=
  q = '\x27' ∨ q = '"' ∨ q = '\x60' ∧ d = .bigQuery

/-- The characters that mean nothing outside quoted text. -/
def IsPlain (d : Dialect) (c : Char) : Prop :=
  c ∉ ['\x27', '"', '\x60', '(', ')', ';', '-', '/'] ∧ ¬(c = '#' ∧ d = .bigQuery)

theorem codeStep_eq_ok_iff (d : Dialect) (n : Nat) (c : Char) (t : State) :
    codeStep d n c = .ok t ↔
      IsDelimiter d c ∧ t = ⟨.quoted c, n⟩ ∨
      c = '(' ∧ t = ⟨.code, n + 1⟩ ∨
      c = ')' ∧ (∃ m, n = m + 1 ∧ t = ⟨.code, m⟩) ∨
      c = '-' ∧ t = ⟨.dash, n⟩ ∨
      c = '/' ∧ t = ⟨.slash, n⟩ ∨
      IsPlain d c ∧ t = ⟨.code, n⟩ := by
  unfold codeStep
  by_cases h : c ∈ ['\x27', '"', '\x60', '(', ')', ';', '-', '/']
  · simp only [List.mem_cons, List.not_mem_nil, or_false] at h
    rcases h with rfl | rfl | rfl | rfl | rfl | rfl | rfl | rfl
    case inr.inr.inr.inr.inl => cases n <;> simp [IsDelimiter, IsPlain, eq_comm]
    all_goals cases d <;> simp [IsDelimiter, IsPlain, eq_comm]
  · simp only [List.mem_cons, List.not_mem_nil, or_false, not_or] at h
    by_cases hash : c = '#' ∧ d = .bigQuery
    · simp [hash, IsDelimiter, IsPlain]
    · simp [h, hash, IsDelimiter, IsPlain, eq_comm]

/-- The delimiter that a mode remembers. -/
def Mode.delimiter? : Mode → Option Char
  | .quoted q | .escaped q | .ended q => some q
  | _ => none

theorem delimiter_of_codeStep {d : Dialect} {n : Nat} {c q : Char} {t : State}
    (h : codeStep d n c = .ok t) (hq : t.mode.delimiter? = some q) : IsDelimiter d q := by
  rw [codeStep_eq_ok_iff] at h
  rcases h with ⟨hc, rfl⟩ | ⟨-, rfl⟩ | ⟨-, m, -, rfl⟩ | ⟨-, rfl⟩ | ⟨-, rfl⟩ | ⟨-, rfl⟩ <;>
    simp only [Mode.delimiter?, Option.some.injEq, reduceCtorEq] at hq
  exact hq ▸ hc

/-- Outside quoted text a step reads code, unless the character doubles the delimiter in front of it.
Inside, the delimiter and an escaping backslash are all it looks for. -/
theorem step_cases {d : Dialect} {s t : State} {c : Char} (h : step d s c = .ok t) :
    s.mode.isOutside = true ∧ codeStep d s.depth c = .ok t ∨
    (∃ q, s.mode = .quoted q ∧ c = '\\' ∧ d.escapesByBackslash = true ∧ t = ⟨.escaped q, s.depth⟩) ∨
    (∃ q, s.mode = .quoted q ∧ c = q ∧ t = ⟨.ended q, s.depth⟩) ∨
    (∃ q, s.mode = .quoted q ∧ c ≠ q ∧ t = s) ∨
    (∃ q, s.mode = .escaped q ∧ t = ⟨.quoted q, s.depth⟩) ∨
    (∃ q, s.mode = .ended q ∧ c = q ∧ t = ⟨.quoted q, s.depth⟩) := by
  obtain ⟨mode, depth⟩ := s
  cases mode with
  | code => exact Or.inl ⟨rfl, h⟩
  | dash =>
    simp only [step] at h
    split at h
    · cases h
    · exact Or.inl ⟨rfl, h⟩
  | slash =>
    simp only [step] at h
    split at h
    · cases h
    · exact Or.inl ⟨rfl, h⟩
  | quoted q =>
    simp only [step] at h
    split at h
    · rename_i hc
      cases h
      exact Or.inr (Or.inl ⟨q, rfl, hc.1, hc.2, rfl⟩)
    · split at h <;> rename_i hq <;> cases h
      · exact Or.inr (Or.inr (Or.inl ⟨q, rfl, hq, rfl⟩))
      · exact Or.inr (Or.inr (Or.inr (Or.inl ⟨q, rfl, hq, rfl⟩)))
  | escaped q =>
    cases h
    exact Or.inr (Or.inr (Or.inr (Or.inr (Or.inl ⟨q, rfl, rfl⟩))))
  | ended q =>
    simp only [step] at h
    split at h
    · rename_i hc
      cases h
      exact Or.inr (Or.inr (Or.inr (Or.inr (Or.inr ⟨q, rfl, hc, rfl⟩))))
    · exact Or.inl ⟨rfl, h⟩

/-- A step remembers the delimiter it had, or one that it has just met. -/
theorem delimiter_of_step {d : Dialect} {s t : State} {c q : Char} (h : step d s c = .ok t)
    (hq : t.mode.delimiter? = some q) : s.mode.delimiter? = some q ∨ IsDelimiter d q := by
  rcases step_cases h with ⟨-, code⟩ | ⟨r, hm, -, -, rfl⟩ | ⟨r, hm, -, rfl⟩ | ⟨-, -, -, rfl⟩ |
    ⟨r, hm, rfl⟩ | ⟨r, hm, -, rfl⟩
  case inr.inr.inr.inl => exact Or.inl hq
  case inl => exact Or.inr (delimiter_of_codeStep code hq)
  all_goals
    rw [hm]
    exact Or.inl hq

/-! ### Characters without a meaning of their own -/

/-- The characters that some step of the machine tests for, besides the open delimiter. -/
def significant : List Char :=
  ['\x00', '\x27', '"', '\x60', '(', ')', ';', '-', '/', '#', '*', '\\']

theorem codeStep_of_not_significant (d : Dialect) (n : Nat) {c : Char} (h : c ∉ significant) :
    codeStep d n c = .ok ⟨.code, n⟩ := by
  simp only [significant, List.mem_cons, List.not_mem_nil, or_false, not_or] at h
  simp [codeStep, h]

/-- Outside quoted text such a character settles what was pending. -/
theorem checkedStep_of_not_significant (d : Dialect) (s : State) {c : Char}
    (h : c ∉ significant) (hs : s.mode = .code ∨ s.mode = .dash ∨ s.mode = .slash) :
    checkedStep d s c = .ok ⟨.code, s.depth⟩ := by
  have hc := codeStep_of_not_significant d s.depth h
  simp only [significant, List.mem_cons, List.not_mem_nil, or_false, not_or] at h
  obtain hs | hs | hs := hs <;> simp [checkedStep, step, hs, h, hc]

/-! ### Blanks at the ends -/

theorem not_significant_of_isBlank {c : Char} (h : Text.isBlank c = true) : c ∉ significant := by
  intro hc
  have none : significant.any Text.isBlank = false := by decide
  exact List.any_eq_false.1 none c hc h

/-- The state behind a run of blanks: they settle whatever was pending. -/
def State.settled (s : State) : State :=
  match s.mode with
  | .quoted q | .escaped q => ⟨.quoted q, s.depth⟩
  | _ => ⟨.code, s.depth⟩

theorem endProblem_settled (s : State) : s.settled.endProblem = s.endProblem := by
  obtain ⟨mode, depth⟩ := s
  cases mode <;> rfl

/-- A blank that is not the open delimiter leaves nothing new open or closed. -/
theorem checkedStep_blank (d : Dialect) (s : State) {c : Char} (h : Text.isBlank c = true)
    (hq : ∀ q, s.mode = .quoted q ∨ s.mode = .ended q → Text.isBlank q = false) :
    ∃ t, checkedStep d s c = .ok t ∧ t.settled = s.settled := by
  have hc := not_significant_of_isBlank h
  have plain := codeStep_of_not_significant d s.depth hc
  have other (q : Char) (hv : Text.isBlank q = false) : c ≠ q := by
    rintro rfl
    rw [h] at hv
    exact Bool.noConfusion hv
  obtain ⟨mode, depth⟩ := s
  cases mode with
  | code => exact ⟨_, checkedStep_of_not_significant d _ hc (by simp), rfl⟩
  | dash => exact ⟨_, checkedStep_of_not_significant d _ hc (by simp), rfl⟩
  | slash => exact ⟨_, checkedStep_of_not_significant d _ hc (by simp), rfl⟩
  | quoted q =>
    simp only [significant, List.mem_cons, List.not_mem_nil, or_false, not_or] at hc
    have hcq := other q (hq q (Or.inl rfl))
    exact ⟨⟨.quoted q, depth⟩, by simp [checkedStep, step, hc, hcq], rfl⟩
  | escaped q =>
    simp only [significant, List.mem_cons, List.not_mem_nil, or_false, not_or] at hc
    exact ⟨⟨.quoted q, depth⟩, by simp [checkedStep, step, hc], rfl⟩
  | ended q =>
    simp only [significant, List.mem_cons, List.not_mem_nil, or_false, not_or] at hc
    have hcq := other q (hq q (Or.inr rfl))
    exact ⟨⟨.code, depth⟩, by simp [checkedStep, step, hc, hcq, plain], rfl⟩

/-- The delimiters that a state remembers are never blanks. -/
def State.DelimiterVisible (s : State) : Prop :=
  ∀ q, s.mode = .quoted q ∨ s.mode = .escaped q ∨ s.mode = .ended q → Text.isBlank q = false

theorem delimiterVisible_start : State.DelimiterVisible .start := by
  intro q h
  simp [State.start] at h

theorem delimiterVisible_checkedStep {d : Dialect} {s t : State} {c : Char}
    (hs : s.DelimiterVisible) (h : checkedStep d s c = .ok t) : t.DelimiterVisible := by
  unfold checkedStep at h
  split at h
  · cases h
  intro q hq
  have remembered : t.mode.delimiter? = some q := by
    obtain hq | hq | hq := hq <;> rw [hq] <;> rfl
  obtain old | new := delimiter_of_step h remembered
  · refine hs q ?_
    cases hm : s.mode <;> simp_all [Mode.delimiter?]
  · obtain rfl | rfl | ⟨rfl, -⟩ := new <;> decide

theorem delimiterVisible_checkedRun {d : Dialect} {s t : State} {cs : List Char}
    (hs : s.DelimiterVisible) (h : checkedRun d s cs = .ok t) : t.DelimiterVisible := by
  induction cs generalizing s with
  | nil =>
    cases h
    exact hs
  | cons c cs ih =>
    rw [checkedRun_cons] at h
    cases hc : checkedStep d s c with
    | error p => simp [hc, Except.bind] at h
    | ok u =>
      rw [hc] at h
      exact ih (delimiterVisible_checkedStep hs hc) h

/-- Blanks are always accepted and leave nothing new open or closed. -/
theorem checkedRun_blanks (d : Dialect) (s : State) (cs : List Char) (hs : s.DelimiterVisible)
    (h : cs.all Text.isBlank = true) :
    ∃ t, checkedRun d s cs = .ok t ∧ t.settled = s.settled := by
  induction cs generalizing s with
  | nil => exact ⟨s, rfl, rfl⟩
  | cons c cs ih =>
    simp only [List.all_cons, Bool.and_eq_true] at h
    obtain ⟨t, ht, same⟩ := checkedStep_blank d s h.1
      fun q hq => hs q (hq.elim Or.inl fun e => Or.inr (Or.inr e))
    obtain ⟨u, hu, same'⟩ := ih t (delimiterVisible_checkedStep hs ht) h.2
    refine ⟨u, ?_, same'.trans same⟩
    rw [checkedRun_cons, ht]
    exact hu

/-- Blanks in front of a text do not change how it is read. -/
theorem checkedRun_start_blanks (d : Dialect) (cs : List Char)
    (h : cs.all Text.isBlank = true) : checkedRun d .start cs = .ok .start := by
  induction cs with
  | nil => rfl
  | cons c cs ih =>
    simp only [List.all_cons, Bool.and_eq_true] at h
    rw [checkedRun_cons,
      checkedStep_of_not_significant d .start (not_significant_of_isBlank h.1) (Or.inl rfl)]
    exact ih h.2

theorem problem_eq_none_iff (d : Dialect) (sql : String) :
    problem d sql = none ↔ Text.isBlankText sql = false ∧ runProblem d sql.toList = none := by
  unfold problem
  cases Text.isBlankText sql <;> simp

theorem runProblem_trim (d : Dialect) (front cs back : List Char)
    (hf : front.all Text.isBlank = true) (hb : back.all Text.isBlank = true) :
    runProblem d (front ++ cs ++ back) = runProblem d cs := by
  unfold runProblem
  rw [checkedRun_append, checkedRun_append, checkedRun_start_blanks d front hf]
  cases hc : checkedRun d .start cs with
  | error p => simp [Except.bind, hc]
  | ok s =>
    obtain ⟨t, ht, same⟩ := checkedRun_blanks d s back
      (delimiterVisible_checkedRun delimiterVisible_start hc) hb
    simp only [Except.bind, hc, ht]
    rw [← endProblem_settled t, same, endProblem_settled]

/-- Trimming does not change what the check finds. -/
theorem problem_trim (d : Dialect) (sql : String) :
    problem d (Text.trim sql) = problem d sql := by
  obtain ⟨front, back, split, hf, hb⟩ := Text.trimChars_decompose sql.toList
  have run := runProblem_trim d front (Text.trimChars sql.toList) back hf hb
  rw [← split] at run
  have blank : Text.isBlankText (Text.trim sql) = Text.isBlankText sql := by
    unfold Text.isBlankText
    rw [Text.toList_trim]
    conv => rhs; rw [split]
    simp [hf, hb]
  rw [problem, problem, Text.toList_trim, run, blank]

theorem problem_trim_eq_none_iff (d : Dialect) (sql : String) :
    problem d (Text.trim sql) = none ↔ problem d sql = none := by
  rw [problem_trim]

/-! ### Names -/

theorem not_significant_of_isPlainRest {d : Dialect} {c : Char} (h : d.isPlainRest c = true) :
    c ∉ significant := by
  intro hc
  have none : significant.any d.isPlainRest = false := by cases d <;> decide
  exact List.any_eq_false.1 none c hc h

theorem isPlainRest_of_isPlainStart {d : Dialect} {c : Char} (h : d.isPlainStart c = true) :
    d.isPlainRest c = true := by
  cases d <;> simp only [Dialect.isPlainStart, Dialect.isPlainRest, Bool.or_eq_true] at h ⊢
  · simp only [Char.isAlphanum, Bool.or_eq_true]
    exact h.imp Or.inl id
  · exact Or.inl (h.imp Or.inl id)

/-- The characters of bare words lie between `$` and `z`. -/
theorem toNat_of_isPlainRest {d : Dialect} {c : Char} (h : d.isPlainRest c = true) :
    0x24 ≤ c.toNat ∧ c.toNat ≤ 0x7A := by
  have values : 'A'.val.toNat = 65 ∧ 'Z'.val.toNat = 90 ∧ 'a'.val.toNat = 97 ∧
      'z'.val.toNat = 122 ∧ '0'.val.toNat = 48 ∧ '9'.val.toNat = 57 := by decide
  have other : '_'.toNat = 95 ∧ '$'.toNat = 36 := by decide
  have value (x : Char) (hx : c = x) : c.val.toNat = x.toNat := hx ▸ rfl
  have within (low high : UInt32) (hc : (decide (c.val ≥ low) && decide (c.val ≤ high)) = true) :
      low.toNat ≤ c.val.toNat ∧ c.val.toNat ≤ high.toNat := by
    simpa only [Bool.and_eq_true, decide_eq_true_eq, UInt32.le_iff_toNat_le, ge_iff_le] using hc
  show 36 ≤ c.val.toNat ∧ c.val.toNat ≤ 122
  cases d with
  | bigQuery =>
    change (c.isUpper || c.isLower || c.isDigit || decide _) = true at h
    simp only [Bool.or_eq_true, decide_eq_true_eq] at h
    rcases h with ((h | h) | h) | h
    · have := within 'A'.val 'Z'.val ((Bool.decide_and _ _).symm.trans h)
      omega
    · have := within 'a'.val 'z'.val h
      omega
    · have := within '0'.val '9'.val h
      omega
    · have := value _ h
      omega
  | postgreSql =>
    change (c.isLower || c.isDigit || decide _ || decide _) = true at h
    simp only [Bool.or_eq_true, decide_eq_true_eq] at h
    rcases h with ((h | h) | h) | h
    · have := within 'a'.val 'z'.val h
      omega
    · have := within '0'.val '9'.val h
      omega
    · have := value _ h
      omega
    · have := value _ h
      omega

theorem isBlank_eq_false_of_isPlainRest {d : Dialect} {c : Char} (h : d.isPlainRest c = true) :
    Text.isBlank c = false := by
  have bound := toNat_of_isPlainRest h
  simp only [Text.isBlank, Text.inRanges, Text.blankRanges, List.any_eq_false, List.mem_cons,
    List.not_mem_nil, or_false, forall_eq_or_imp, forall_eq, Bool.and_eq_true, decide_eq_true_eq]
  omega

/-- A bare word is read without opening anything. -/
theorem checkedRun_plain (d : Dialect) (cs : List Char) (h : cs.all d.isPlainRest = true) :
    checkedRun d .start cs = .ok .start := by
  induction cs with
  | nil => rfl
  | cons c cs ih =>
    simp only [List.all_cons, Bool.and_eq_true] at h
    rw [checkedRun_cons,
      checkedStep_of_not_significant d .start (not_significant_of_isPlainRest h.1) (Or.inl rfl)]
    exact ih h.2

/-- The escaped form of a character keeps the machine inside the quotes. -/
theorem run_escapeChar (d : Dialect) (n : Nat) (c : Char) :
    run d ⟨.quoted d.identifierQuote, n⟩ (d.escapeChar c) =
      .ok ⟨.quoted d.identifierQuote, n⟩ := by
  cases d
  · by_cases hc : c = '\\' ∨ c = '\x60'
    · simp [Dialect.escapeChar, hc, run_cons, run_nil, step, Except.bind,
        Dialect.escapesByBackslash]
    · rw [not_or] at hc
      simp [Dialect.escapeChar, hc, run_cons, run_nil, step, Except.bind,
        Dialect.identifierQuote]
  · by_cases hc : c = '"'
    · subst hc
      rfl
    · simp [Dialect.escapeChar, hc, run_cons, run_nil, step, Except.bind,
        Dialect.identifierQuote, Dialect.escapesByBackslash]

theorem run_escaped (d : Dialect) (n : Nat) (cs : List Char) :
    run d ⟨.quoted d.identifierQuote, n⟩ (cs.flatMap d.escapeChar) =
      .ok ⟨.quoted d.identifierQuote, n⟩ := by
  induction cs with
  | nil => rfl
  | cons c cs ih =>
    rw [List.flatMap_cons, run_append, run_escapeChar d n c]
    exact ih

/-- Quoted text opens at its first character, is kept open by what is escaped, and ends at its last
character. -/
theorem run_enclosed (d : Dialect) (n : Nat) (cs : List Char) :
    run d ⟨.code, n⟩ (d.identifierQuote :: (cs.flatMap d.escapeChar ++ [d.identifierQuote])) =
      .ok ⟨.ended d.identifierQuote, n⟩ := by
  have opens : step d ⟨.code, n⟩ d.identifierQuote = .ok ⟨.quoted d.identifierQuote, n⟩ := by
    cases d <;> rfl
  have closes : step d ⟨.quoted d.identifierQuote, n⟩ d.identifierQuote =
      .ok ⟨.ended d.identifierQuote, n⟩ := by
    cases d <;> rfl
  rw [run_cons, opens]
  show run d _ _ = _
  rw [run_append, run_escaped d n cs]
  show run d _ _ = _
  rw [run_cons, closes]
  rfl

theorem ne_nul_of_mem_escapeChar {d : Dialect} {c x : Char} (hc : c ≠ '\x00')
    (hx : x ∈ d.escapeChar c) : x ≠ '\x00' := by
  rintro rfl
  cases d <;> simp only [Dialect.escapeChar] at hx <;> split at hx <;> simp at hx <;>
    exact hc hx.symm

theorem ne_nul_of_mem_enclosed {d : Dialect} {cs : List Char} (h : ∀ c ∈ cs, c ≠ '\x00') :
    ∀ x ∈ d.identifierQuote :: (cs.flatMap d.escapeChar ++ [d.identifierQuote]), x ≠ '\x00' := by
  have quote : d.identifierQuote ≠ '\x00' := by cases d <;> decide
  intro x hx
  simp only [List.mem_cons, List.mem_append, List.mem_flatMap, List.not_mem_nil, or_false] at hx
  rcases hx with rfl | ⟨c, hc, hx⟩ | rfl
  · exact quote
  · exact ne_nul_of_mem_escapeChar (h c hc) hx
  · exact quote

theorem toList_forceQuote (d : Dialect) (name : String) :
    (d.forceQuote name).toList =
      d.identifierQuote :: (name.toList.flatMap d.escapeChar ++ [d.identifierQuote]) := by
  simp [Dialect.forceQuote, Dialect.enclose, Dialect.escape]

theorem ne_nul_of_isLegal {d : Dialect} {name : String} (h : d.isLegal name = true) :
    ∀ c ∈ name.toList, c ≠ '\x00' := by
  rintro c hc rfl
  simp only [Dialect.isLegal, Bool.and_eq_true, Bool.not_eq_true', List.any_eq_false] at h
  exact h.2 _ hc (by decide)

/-- A legal name, as it stands in a statement, passes the check. -/
theorem problem_quote {d : Dialect} {name : String} (h : d.isLegal name = true) :
    problem d (d.quote name) = none := by
  rw [problem_eq_none_iff]
  unfold Dialect.quote
  split
  · have toList := toList_forceQuote d name
    refine ⟨?_, ?_⟩
    · rw [Text.isBlankText, toList, List.all_cons]
      cases d <;> rfl
    · rw [runProblem, toList,
        checkedRun_eq_run d _ _ (ne_nul_of_mem_enclosed (ne_nul_of_isLegal h)), State.start,
        run_enclosed]
      rfl
  · rename_i bare
    simp only [Dialect.needsQuoting, Bool.or_eq_true, Bool.not_eq_true', not_or] at bare
    have plain := bare.1
    revert plain
    cases hs : name.toList with
    | nil => simp [Dialect.isPlainWord]
    | cons c rest =>
      intro plain
      simp only [Dialect.isPlainWord, Bool.not_eq_false, Bool.and_eq_true] at plain
      have all : (c :: rest).all d.isPlainRest = true := by
        simp only [List.all_cons, Bool.and_eq_true]
        exact ⟨isPlainRest_of_isPlainStart plain.1, plain.2⟩
      refine ⟨?_, ?_⟩
      · rw [Text.isBlankText, hs, List.all_cons,
          isBlank_eq_false_of_isPlainRest (isPlainRest_of_isPlainStart plain.1)]
        rfl
      · rw [runProblem, checkedRun_plain d _ all]
        rfl

end LayeredSql.Fragment
