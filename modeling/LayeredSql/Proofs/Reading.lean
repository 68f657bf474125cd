import LayeredSql.Expr

/-!
# Reading texts piece by piece

Statements are put together from fragments, quoted names, keywords and whole inner statements. The
lexical machine reads each of them from outside quoted text to outside quoted text, and what it
leaves pending at the end of one piece (a `-`, a `/` or a delimiter that could be doubled) is settled
by the first character of the next. So the reading of a statement is composed of the readings of its
pieces.
-/

namespace LayeredSql

/-- The characters that unquoted words are made of. -/
def Dialect.isWordChar : Dialect → Char → Bool
  | bigQuery, c => c.isAlphanum || c = '_'
  | postgreSql, c => c.isAlphanum || c = '_' || c = '$' || 0x80 ≤ c.toNat

/-- Neither end of the text is a blank. -/
def Text.VisibleEnds (cs : List Char) : Prop :=
  (∀ c ∈ cs.head?, isBlank c = false) ∧ ∀ c ∈ cs.getLast?, isBlank c = false

namespace Fragment

/-! ### States between pieces -/

/-- Outside quoted text, with nothing remembered but a delimiter of the dialect. -/
def State.Rests (d : Dialect) (s : State) : Prop :=
  s.mode.isOutside = true ∧ ∀ q, s.mode.delimiter? = some q → IsDelimiter d q

theorem rests_code (d : Dialect) (n : Nat) : State.Rests d ⟨.code, n⟩ :=
  ⟨rfl, fun _ h => nomatch h⟩

/-- A doubled delimiter is read as the end of quoted text and the start of another. -/
theorem step_ended {d : Dialect} {q : Char} (hq : IsDelimiter d q) (n : Nat) (c : Char) :
    step d ⟨.ended q, n⟩ c = codeStep d n c := by
  by_cases hc : c = q
  · subst hc
    simp only [step, ite_true]
    exact ((codeStep_eq_ok_iff d n c _).2 (Or.inl ⟨hq, rfl⟩)).symm
  · simp [step, hc]

theorem step_of_rests {d : Dialect} {s : State} (hs : s.Rests d) {c : Char} (hd : c ≠ '-')
    (ha : c ≠ '*') : step d s c = codeStep d s.depth c := by
  obtain ⟨mode, depth⟩ := s
  cases mode with
  | code => rfl
  | dash => simp [step, hd]
  | slash => simp [step, ha]
  | quoted q => cases hs.1
  | escaped q => cases hs.1
  | ended q => exact step_ended (hs.2 q rfl) depth c

/-- The text does not go on from a `-` or a `/` in front of it. -/
def Joins (cs : List Char) : Prop := cs.head? ≠ some '-' ∧ cs.head? ≠ some '*'

instance (cs : List Char) : Decidable (Joins cs) := inferInstanceAs (Decidable (_ ∧ _))

theorem run_of_rests {d : Dialect} {s : State} (hs : s.Rests d) {c : Char} {cs : List Char}
    (hj : Joins (c :: cs)) : run d s (c :: cs) = run d ⟨.code, s.depth⟩ (c :: cs) := by
  have hd : c ≠ '-' := fun h => hj.1 (congrArg some h)
  have ha : c ≠ '*' := fun h => hj.2 (congrArg some h)
  rw [run_cons, run_cons, step_of_rests hs hd ha]
  rfl

theorem delimiters_of_run {d : Dialect} {s t : State} {cs : List Char}
    (hs : ∀ q, s.mode.delimiter? = some q → IsDelimiter d q) (h : run d s cs = .ok t) :
    ∀ q, t.mode.delimiter? = some q → IsDelimiter d q := by
  induction cs generalizing s with
  | nil =>
    cases h
    exact hs
  | cons c cs ih =>
    obtain ⟨u, hu, hr⟩ := run_cons_eq_ok_iff.1 h
    refine ih ?_ hr
    intro q hq
    obtain old | new := delimiter_of_step hu hq
    · exact hs q old
    · exact new

theorem codeStep_of_step {d : Dialect} {s t : State} {c : Char} (hs : s.Rests d)
    (h : step d s c = .ok t) : codeStep d s.depth c = .ok t := by
  obtain ⟨outside, delimiter⟩ := hs
  rcases step_cases h with ⟨-, code⟩ | ⟨q, hm, -⟩ | ⟨q, hm, -⟩ | ⟨q, hm, -⟩ | ⟨q, hm, -⟩ |
    ⟨q, hm, rfl, rfl⟩
  · exact code
  iterate 4
    rw [hm] at outside
    cases outside
  · rw [hm] at delimiter
    exact (codeStep_eq_ok_iff ..).2 (Or.inl ⟨delimiter c rfl, rfl⟩)

theorem rests_of_step {d : Dialect} {s t : State} {c : Char} (hs : s.Rests d)
    (hc : ¬IsDelimiter d c) (h : step d s c = .ok t) : t.Rests d := by
  have code := (codeStep_eq_ok_iff d s.depth c t).1 (codeStep_of_step hs h)
  rcases code with ⟨hd, -⟩ | ⟨-, rfl⟩ | ⟨-, m, -, rfl⟩ | ⟨-, rfl⟩ | ⟨-, rfl⟩ | ⟨-, rfl⟩
  · exact absurd hd hc
  all_goals exact ⟨rfl, nofun⟩

theorem rests_of_run {d : Dialect} {s t : State} {cs : List Char} (hs : s.Rests d)
    (hc : ∀ c ∈ cs, ¬IsDelimiter d c) (h : run d s cs = .ok t) : t.Rests d := by
  induction cs generalizing s with
  | nil =>
    cases h
    exact hs
  | cons c cs ih =>
    obtain ⟨u, hu, hr⟩ := run_cons_eq_ok_iff.1 h
    exact ih (rests_of_step hs (hc c (by simp)) hu) (fun x hx => hc x (by simp [hx])) hr

/-! ### Parentheses around a text -/

theorem codeStep_deeper {d : Dialect} {n : Nat} {c : Char} {t : State} (k : Nat)
    (h : codeStep d n c = .ok t) : codeStep d (n + k) c = .ok ⟨t.mode, t.depth + k⟩ := by
  rw [codeStep_eq_ok_iff] at h ⊢
  rcases h with ⟨hc, rfl⟩ | ⟨hc, rfl⟩ | ⟨hc, m, rfl, rfl⟩ | ⟨hc, rfl⟩ | ⟨hc, rfl⟩ | ⟨hc, rfl⟩
  · exact Or.inl ⟨hc, rfl⟩
  · exact Or.inr (Or.inl ⟨hc, by rw [Nat.add_right_comm]⟩)
  · exact Or.inr (Or.inr (Or.inl ⟨hc, m + k, by rw [Nat.add_right_comm], rfl⟩))
  · exact Or.inr (Or.inr (Or.inr (Or.inl ⟨hc, rfl⟩)))
  · exact Or.inr (Or.inr (Or.inr (Or.inr (Or.inl ⟨hc, rfl⟩))))
  · exact Or.inr (Or.inr (Or.inr (Or.inr (Or.inr ⟨hc, rfl⟩))))

theorem step_deeper {d : Dialect} {s t : State} {c : Char} (k : Nat) (h : step d s c = .ok t) :
    step d ⟨s.mode, s.depth + k⟩ c = .ok ⟨t.mode, t.depth + k⟩ := by
  obtain ⟨mode, depth⟩ := s
  cases mode with
  | code => exact codeStep_deeper k h
  | dash =>
    simp only [step] at h ⊢
    split at h
    · cases h
    · rename_i hc
      rw [if_neg hc]
      exact codeStep_deeper k h
  | slash =>
    simp only [step] at h ⊢
    split at h
    · cases h
    · rename_i hc
      rw [if_neg hc]
      exact codeStep_deeper k h
  | quoted q =>
    simp only [step] at h ⊢
    split at h
    · rename_i hc
      cases h
      rw [if_pos hc]
    · rename_i hc
      rw [if_neg hc]
      split at h <;> rename_i hq <;> cases h
      · rw [if_pos hq]
      · rw [if_neg hq]
  | escaped q =>
    cases h
    rfl
  | ended q =>
    simp only [step] at h ⊢
    split at h
    · rename_i hc
      cases h
      rw [if_pos hc]
    · rename_i hc
      rw [if_neg hc]
      exact codeStep_deeper k h

theorem run_deeper {d : Dialect} {s t : State} {cs : List Char} (k : Nat)
    (h : run d s cs = .ok t) : run d ⟨s.mode, s.depth + k⟩ cs = .ok ⟨t.mode, t.depth + k⟩ := by
  induction cs generalizing s with
  | nil =>
    cases h
    rfl
  | cons c cs ih =>
    obtain ⟨u, hu, hr⟩ := run_cons_eq_ok_iff.1 h
    exact run_cons_eq_ok_iff.2 ⟨_, step_deeper k hu, ih hr⟩

/-! ### Pieces -/

/-- Reading the text from outside quoted text, `n` parentheses deep, ends outside quoted text, `k`
parentheses deep. -/
def Reads (d : Dialect) (n : Nat) (cs : List Char) (k : Nat) : Prop :=
  ∃ t, run d ⟨.code, n⟩ cs = .ok t ∧ t.Rests d ∧ t.depth = k

/-- As `Reads`, with nothing pending at the end. -/
def Clears (d : Dialect) (n : Nat) (cs : List Char) (k : Nat) : Prop :=
  run d ⟨.code, n⟩ cs = .ok ⟨.code, k⟩

theorem Clears.reads {d : Dialect} {n k : Nat} {cs : List Char} (h : Clears d n cs k) :
    Reads d n cs k := ⟨_, h, rests_code d k, rfl⟩

theorem clears_nil (d : Dialect) (n : Nat) : Clears d n [] n := rfl

theorem Clears.append {d : Dialect} {n k j : Nat} {xs ys : List Char} (hx : Clears d n xs k)
    (hy : Clears d k ys j) : Clears d n (xs ++ ys) j := by
  rw [Clears, run_append, hx]
  exact hy

theorem Clears.reads_append {d : Dialect} {n k j : Nat} {xs ys : List Char}
    (hx : Clears d n xs k) (hy : Reads d k ys j) : Reads d n (xs ++ ys) j := by
  obtain ⟨t, ht, rests, depth⟩ := hy
  refine ⟨t, ?_, rests, depth⟩
  rw [run_append, hx]
  exact ht

theorem Reads.append {d : Dialect} {n k j : Nat} {xs ys : List Char} (hx : Reads d n xs k)
    (hy : Reads d k ys j) (hj : Joins ys) : Reads d n (xs ++ ys) j := by
  cases ys with
  | nil =>
    obtain ⟨t, ht, -, depth⟩ := hy
    cases ht
    cases depth
    rw [List.append_nil]
    exact hx
  | cons c cs =>
    obtain ⟨s, hs, rests, rfl⟩ := hx
    obtain ⟨t, ht, rests', depth'⟩ := hy
    refine ⟨t, ?_, rests', depth'⟩
    rw [run_append, hs]
    show run d s (c :: cs) = .ok t
    rw [run_of_rests rests hj]
    exact ht

theorem Reads.clears_append {d : Dialect} {n k j : Nat} {xs : List Char} {c : Char}
    {cs : List Char} (hx : Reads d n xs k) (hy : Clears d k (c :: cs) j) (hj : Joins (c :: cs)) :
    Clears d n (xs ++ c :: cs) j := by
  obtain ⟨s, hs, rests, rfl⟩ := hx
  rw [Clears, run_append, hs]
  show run d s (c :: cs) = _
  rw [run_of_rests rests hj]
  exact hy

theorem Reads.deeper {d : Dialect} {n k : Nat} {cs : List Char} (h : Reads d n cs k) (j : Nat) :
    Reads d (n + j) cs (k + j) := by
  obtain ⟨t, ht, rests, rfl⟩ := h
  exact ⟨⟨t.mode, t.depth + j⟩, run_deeper j ht, rests, rfl⟩

/-! ### Keywords and parentheses -/

/-- No character of the text means anything to the machine. -/
def Insignificant (cs : List Char) : Prop := ∀ c ∈ cs, c ∉ significant

-- over the members of the list; there are too many characters to go through them all
instance (cs : List Char) : Decidable (Insignificant cs) :=
  List.decidableBAll (fun c => c ∉ significant) cs

theorem clears_of_not_significant (d : Dialect) (n : Nat) (cs : List Char)
    (h : Insignificant cs) : Clears d n cs n := by
  induction cs with
  | nil => exact clears_nil d n
  | cons c cs ih =>
    rw [Clears, run_cons]
    show ((codeStep d n c).bind fun t => run d t cs) = _
    rw [codeStep_of_not_significant d n (h c (by simp))]
    exact ih fun x hx => h x (by simp [hx])

theorem clears_open (d : Dialect) (n : Nat) : Clears d n ['('] (n + 1) := by
  cases d <;> rfl

theorem clears_close (d : Dialect) (n : Nat) : Clears d (n + 1) [')'] n := by
  cases d <;> rfl

/-! ### Names, table references and fragments -/

theorem rests_ended_identifierQuote (d : Dialect) (n : Nat) :
    State.Rests d ⟨.ended d.identifierQuote, n⟩ := by
  refine ⟨rfl, ?_⟩
  intro q hq
  cases hq
  cases d
  · exact Or.inr (Or.inr ⟨rfl, rfl⟩)
  · exact Or.inr (Or.inl rfl)

theorem reads_forceQuote (d : Dialect) (n : Nat) (name : String) :
    Reads d n (d.forceQuote name).toList n := by
  refine ⟨_, ?_, rests_ended_identifierQuote d n, rfl⟩
  rw [toList_forceQuote, run_enclosed]

theorem all_isPlainRest_of_needsQuoting_eq_false {d : Dialect} {name : String}
    (h : d.needsQuoting name = false) : ∀ c ∈ name.toList, d.isPlainRest c = true := by
  simp only [Dialect.needsQuoting, Bool.or_eq_false_iff, Bool.not_eq_false'] at h
  have plain := h.1
  cases hs : name.toList with
  | nil => simp
  | cons c rest =>
    rw [hs, Dialect.isPlainWord, Bool.and_eq_true, List.all_eq_true] at plain
    intro x hx
    rcases List.mem_cons.1 hx with rfl | hx
    · exact isPlainRest_of_isPlainStart plain.1
    · exact plain.2 x hx

theorem reads_quote (d : Dialect) (n : Nat) (name : String) :
    Reads d n (d.quote name).toList n := by
  unfold Dialect.quote
  split
  · exact reads_forceQuote d n name
  · rename_i bare
    rw [Bool.not_eq_true] at bare
    refine (clears_of_not_significant d n name.toList ?_).reads
    intro c hc
    exact not_significant_of_isPlainRest (all_isPlainRest_of_needsQuoting_eq_false bare c hc)

theorem visibleEnds_quote (d : Dialect) (name : String) :
    Text.VisibleEnds (d.quote name).toList := by
  unfold Dialect.quote
  split
  · have quote : Text.isBlank d.identifierQuote = false := by cases d <;> decide
    rw [toList_forceQuote]
    constructor
    · intro c hc
      cases hc
      exact quote
    · intro c hc
      rw [← List.cons_append, List.getLast?_concat] at hc
      cases hc
      exact quote
  · rename_i bare
    rw [Bool.not_eq_true] at bare
    have plain (c : Char) (hc : c ∈ name.toList) : Text.isBlank c = false :=
      isBlank_eq_false_of_isPlainRest (all_isPlainRest_of_needsQuoting_eq_false bare c hc)
    exact ⟨fun c hc => plain c (List.mem_of_mem_head? hc),
      fun c hc => plain c (List.mem_of_mem_getLast? hc)⟩

theorem toList_quote_ne_nil (d : Dialect) (name : String) : (d.quote name).toList ≠ [] := by
  unfold Dialect.quote
  split
  · rw [toList_forceQuote]
    exact List.cons_ne_nil _ _
  · rename_i bare
    intro empty
    simp [Dialect.needsQuoting, empty, Dialect.isPlainWord] at bare

theorem escape_append (d : Dialect) (a b : String) :
    d.escape a ++ d.escape b = d.escape (a ++ b) := by
  simp [Dialect.escape]

theorem tableReference_bigQuery (project dataset table : String) :
    Dialect.bigQuery.tableReference project dataset table =
      Dialect.bigQuery.forceQuote (project ++ "." ++ dataset ++ "." ++ table) := by
  have dot : Dialect.bigQuery.escape "." = "." := by decide +kernel
  rw [Dialect.forceQuote, ← escape_append, ← escape_append, ← escape_append, ← escape_append, dot]
  rfl

theorem reads_tableReference (d : Dialect) (n : Nat) (project dataset table : String) :
    Reads d n (d.tableReference project dataset table).toList n := by
  cases d with
  | bigQuery =>
    rw [tableReference_bigQuery]
    exact reads_forceQuote .bigQuery n _
  | postgreSql =>
    simp only [Dialect.tableReference, String.toList_append]
    have dot : Clears .postgreSql n ".".toList n :=
      clears_of_not_significant .postgreSql n _ (by decide)
    exact ((reads_quote .postgreSql n dataset).clears_append dot (by decide)).reads_append
      (reads_quote .postgreSql n table)

theorem run_of_checkedRun {d : Dialect} {s t : State} {cs : List Char}
    (h : checkedRun d s cs = .ok t) : run d s cs = .ok t := by
  induction cs generalizing s with
  | nil => exact h
  | cons c cs ih =>
    rw [checkedRun_cons] at h
    rw [run_cons]
    cases hc : checkedStep d s c with
    | error p => simp [hc, Except.bind] at h
    | ok u =>
      have hs : step d s c = .ok u := by
        unfold checkedStep at hc
        split at hc
        · cases hc
        · exact hc
      rw [hc] at h
      rw [hs]
      exact ih h

theorem reads_of_problem_eq_none {d : Dialect} {sql : String} (h : problem d sql = none) :
    Reads d 0 sql.toList 0 := by
  obtain ⟨-, hr⟩ := (problem_eq_none_iff d sql).1 h
  unfold runProblem at hr
  cases hc : checkedRun d .start sql.toList with
  | error p =>
    rw [hc] at hr
    cases hr
  | ok t =>
    rw [hc] at hr
    simp only [State.endProblem] at hr
    have outside : t.mode.isOutside = true := by
      cases ho : t.mode.isOutside with
      | true => rfl
      | false => simp [ho] at hr
    have depth : t.depth = 0 := by
      rw [outside] at hr
      simpa using hr
    have hrun := run_of_checkedRun hc
    exact ⟨t, hrun, ⟨outside, delimiters_of_run (rests_code d 0).2 hrun⟩, depth⟩

theorem isValid_ofFragment_iff (d : Dialect) (sql : String) :
    (Expr.ofFragment d sql).isValid = true ↔ problem d sql = none := by
  unfold Expr.ofFragment
  split <;> simp [Expr.isValid, *]

theorem reads_of_supportedBy {d : Dialect} {e : Expr} (h : e.supportedBy d = true) (n : Nat) :
    Reads d n e.text.toList n := by
  have closed := reads_of_problem_eq_none (Expr.problem_text_of_supportedBy h)
  simpa using closed.deeper n

end Fragment

end LayeredSql
