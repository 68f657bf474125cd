import LayeredSql.Proofs.Reading

/-!
# The grammar of fragments

A fragment is a sequence of items: literals, items in parentheses, and plain characters. The lexical
check keeps a number for the open parentheses and a mode for the open literal, and it looks one
character ahead. Here it is shown to accept exactly the texts that the nested grammar derives.

The grammar is ambiguous where literals of one delimiter stand next to each other, since a doubled
delimiter belongs to a literal as well. The machine settles this by itself: behind a delimiter that has
ended a literal, it goes on as it does everywhere outside literals.
-/

namespace LayeredSql.Fragment

/-! ### Grammar -/

/-- What can stand one after the other between two delimiters `q`. -/
inductive LiteralUnit (d : Dialect) (q : Char) : List Char → Prop
  | single (c : Char) : c ≠ q → ¬(c = '\\' ∧ d = .bigQuery) → LiteralUnit d q [c]
  | doubled : LiteralUnit d q [q, q]
  | escaped (c : Char) : d = .bigQuery → LiteralUnit d q ['\\', c]

inductive Literal (d : Dialect) : List Char → Prop
  | enclose (q : Char) (units : List (List Char)) : IsDelimiter d q →
    (∀ u ∈ units, LiteralUnit d q u) → Literal d (q :: (units.flatten ++ [q]))

/-- The character has no meaning of its own and begins no comment with the one behind it. -/
def StandsPlain (d : Dialect) (c : Char) (next : Option Char) : Prop :=
  c ∉ ['\x27', '"', '\x60', '(', ')', ';'] ∧ ¬(c = '#' ∧ d = .bigQuery) ∧
    ¬(c = '-' ∧ next = some '-') ∧ ¬(c = '/' ∧ next = some '*')

mutual

/-- The first text is an item when the second stands behind it. -/
inductive Item (d : Dialect) : List Char → List Char → Prop
  | literal (text rest : List Char) : Literal d text → Item d text rest
  | group (inner rest : List Char) :
    Items d inner (')' :: rest) → Item d ('(' :: (inner ++ [')'])) rest
  | plain (c : Char) (rest : List Char) : StandsPlain d c rest.head? → Item d [c] rest

/-- The first text is a sequence of items when the second stands behind it. -/
inductive Items (d : Dialect) : List Char → List Char → Prop
  | nil (rest : List Char) : Items d [] rest
  | cons (item items rest : List Char) :
    Item d item (items ++ rest) → Items d items rest → Items d (item ++ items) rest

end

/-! ### From the grammar to the machine -/

/-- Outside quoted text, and the text in front of the state begins no comment with `cs`. -/
structure State.Meets (d : Dialect) (s : State) (cs : List Char) : Prop where
  rests : s.Rests d
  dash : s.mode = .dash → cs.head? ≠ some '-'
  slash : s.mode = .slash → cs.head? ≠ some '*'

theorem rests_dash (d : Dialect) (n : Nat) : State.Rests d ⟨.dash, n⟩ :=
  ⟨rfl, by simp [Mode.delimiter?]⟩

theorem rests_slash (d : Dialect) (n : Nat) : State.Rests d ⟨.slash, n⟩ :=
  ⟨rfl, by simp [Mode.delimiter?]⟩

theorem meets_code (d : Dialect) (n : Nat) (cs : List Char) : State.Meets d ⟨.code, n⟩ cs :=
  ⟨rests_code d n, by simp, by simp⟩

theorem meets_ended {d : Dialect} {q : Char} (hq : IsDelimiter d q) (n : Nat) (cs : List Char) :
    State.Meets d ⟨.ended q, n⟩ cs :=
  ⟨⟨rfl, fun _ h => Option.some.inj h ▸ hq⟩, by simp, by simp⟩

theorem step_of_meets {d : Dialect} {s : State} {c : Char} {cs : List Char}
    (h : s.Meets d (c :: cs)) : step d s c = codeStep d s.depth c := by
  obtain ⟨⟨outside, delimiter⟩, dash, slash⟩ := h
  obtain ⟨mode, depth⟩ := s
  cases mode with
  | code => rfl
  | dash =>
    have hc : c ≠ '-' := fun eq => dash rfl (congrArg some eq)
    simp [step, hc]
  | slash =>
    have hc : c ≠ '*' := fun eq => slash rfl (congrArg some eq)
    simp [step, hc]
  | quoted q => cases outside
  | escaped q => cases outside
  | ended q => exact step_ended (delimiter q rfl) depth c

theorem ne_backslash_of_isDelimiter {d : Dialect} {q : Char} (h : IsDelimiter d q) : q ≠ '\\' := by
  rintro rfl
  rcases h with h | h | ⟨h, -⟩ <;> exact absurd h (by decide)

theorem escapesByBackslash_iff (d : Dialect) : d.escapesByBackslash = true ↔ d = .bigQuery := by
  cases d <;> simp [Dialect.escapesByBackslash]

section Literal

variable {d : Dialect} {q : Char} {n : Nat}

theorem step_delimiter (hq : IsDelimiter d q) : step d ⟨.quoted q, n⟩ q = .ok ⟨.ended q, n⟩ := by
  simp [step, ne_backslash_of_isDelimiter hq]

theorem step_quoted_of_ne {c : Char} (hc : c ≠ q) (he : ¬(c = '\\' ∧ d = .bigQuery)) :
    step d ⟨.quoted q, n⟩ c = .ok ⟨.quoted q, n⟩ := by
  rw [← escapesByBackslash_iff] at he
  simp [step, hc, he]

theorem step_backslash (hd : d = .bigQuery) :
    step d ⟨.quoted q, n⟩ '\\' = .ok ⟨.escaped q, n⟩ := by
  subst hd
  rfl

theorem run_unit {u : List Char} (hq : IsDelimiter d q) (hu : LiteralUnit d q u) :
    run d ⟨.quoted q, n⟩ u = .ok ⟨.quoted q, n⟩ := by
  cases hu with
  | single c hc he =>
    rw [run_cons, step_quoted_of_ne hc he]
    rfl
  | doubled =>
    rw [run_cons, step_delimiter hq]
    show run d ⟨.ended q, n⟩ [q] = _
    simp [run_cons, step, Except.bind, run_nil]
  | escaped c hd =>
    rw [run_cons, step_backslash hd]
    rfl

theorem run_units {units : List (List Char)} (hq : IsDelimiter d q)
    (hu : ∀ u ∈ units, LiteralUnit d q u) :
    run d ⟨.quoted q, n⟩ units.flatten = .ok ⟨.quoted q, n⟩ := by
  induction units with
  | nil => rfl
  | cons u rest ih =>
    rw [List.flatten_cons, run_append, run_unit hq (hu u (by simp))]
    exact ih fun v hv => hu v (by simp [hv])

end Literal

/-- A plain character leaves the machine outside quoted text, and only a `-` or `/` is remembered. -/
theorem exists_codeStep_plain {d : Dialect} {c : Char} {rest : List Char} (n : Nat)
    (h : StandsPlain d c rest.head?) :
    ∃ t, codeStep d n c = .ok t ∧ t.depth = n ∧ t.Meets d rest := by
  obtain ⟨ordinary, hash, dash, slash⟩ := h
  by_cases hd : c = '-'
  · refine ⟨⟨.dash, n⟩, (codeStep_eq_ok_iff ..).2 (by simp [hd]), rfl, rests_dash d n, ?_, by simp⟩
    exact fun _ hr => dash ⟨hd, hr⟩
  · by_cases hs : c = '/'
    · refine ⟨⟨.slash, n⟩, (codeStep_eq_ok_iff ..).2 (by simp [hs]), rfl, rests_slash d n, by simp, ?_⟩
      exact fun _ hr => slash ⟨hs, hr⟩
    · have plain : IsPlain d c := by
        refine ⟨?_, hash⟩
        simp only [List.mem_cons, List.not_mem_nil, or_false, not_or] at ordinary ⊢
        obtain ⟨h₁, h₂, h₃, h₄, h₅, h₆⟩ := ordinary
        exact ⟨h₁, h₂, h₃, h₄, h₅, h₆, hd, hs⟩
      exact ⟨⟨.code, n⟩, (codeStep_eq_ok_iff ..).2 (by simp [plain]), rfl, meets_code d n rest⟩

theorem step_open_of_meets {d : Dialect} {s : State} {cs : List Char} (h : s.Meets d ('(' :: cs)) :
    step d s '(' = .ok ⟨.code, s.depth + 1⟩ :=
  (step_of_meets h).trans ((codeStep_eq_ok_iff ..).2 (Or.inr (Or.inl ⟨rfl, rfl⟩)))

theorem step_close_of_meets {d : Dialect} {s : State} {n : Nat} {cs : List Char}
    (h : s.Meets d (')' :: cs)) (hn : s.depth = n + 1) : step d s ')' = .ok ⟨.code, n⟩ :=
  (step_of_meets h).trans ((codeStep_eq_ok_iff ..).2 (Or.inr (Or.inr (Or.inl ⟨rfl, n, hn, rfl⟩))))

-- The two statements are proved together, along the derivation of items inside items.
mutual

theorem Item.exists_run {d : Dialect} {item rest : List Char} (h : Item d item rest) {s : State}
    (hs : s.Meets d (item ++ rest)) :
    ∃ t, run d s item = .ok t ∧ t.depth = s.depth ∧ t.Meets d rest := by
  match h with
  | .literal _ rest (.enclose q units hq hu) =>
    refine ⟨⟨.ended q, s.depth⟩, ?_, rfl, meets_ended hq s.depth rest⟩
    have opens : step d s q = .ok ⟨.quoted q, s.depth⟩ :=
      (step_of_meets hs).trans ((codeStep_eq_ok_iff ..).2 (Or.inl ⟨hq, rfl⟩))
    rw [run_cons, opens]
    show run d _ _ = _
    rw [run_append, run_units hq hu]
    show run d _ _ = _
    rw [run_cons, step_delimiter hq]
    rfl
  | .group inner rest hi =>
    obtain ⟨u, hu, depth, meets⟩ := hi.exists_run (meets_code d (s.depth + 1) (inner ++ ')' :: rest))
    refine ⟨⟨.code, s.depth⟩, ?_, rfl, meets_code d s.depth rest⟩
    rw [run_cons, step_open_of_meets hs]
    show run d _ _ = _
    rw [run_append, hu]
    show run d _ _ = _
    rw [run_cons, step_close_of_meets meets depth]
    rfl
  | .plain c rest hc =>
    obtain ⟨t, ht, depth, meets⟩ := exists_codeStep_plain s.depth hc
    refine ⟨t, ?_, depth, meets⟩
    rw [run_cons, step_of_meets hs, ht]
    rfl

theorem Items.exists_run {d : Dialect} {items rest : List Char} (h : Items d items rest) {s : State}
    (hs : s.Meets d (items ++ rest)) :
    ∃ t, run d s items = .ok t ∧ t.depth = s.depth ∧ t.Meets d rest := by
  match h with
  | .nil rest => exact ⟨s, rfl, rfl, hs⟩
  | .cons item items rest first more =>
    rw [List.append_assoc] at hs
    obtain ⟨u, hu, depth, meets⟩ := first.exists_run hs
    obtain ⟨t, ht, depth', meets'⟩ := more.exists_run meets
    exact ⟨t, run_append_eq_ok_iff.2 ⟨u, hu, ht⟩, depth'.trans depth, meets'⟩

end

/-! ### From the machine to the grammar -/

/-- Items up to each of the `n` parentheses that close, and items behind the last of them. -/
def Closes (d : Dialect) : Nat → List Char → Prop
  | 0, cs => Items d cs []
  | n + 1, cs =>
    ∃ inner rest, cs = inner ++ ')' :: rest ∧ Items d inner (')' :: rest) ∧ Closes d n rest

section Closes

variable {d : Dialect} {n : Nat} {cs : List Char}

theorem Closes.cons {item : List Char} (hi : Item d item cs) (h : Closes d n cs) :
    Closes d n (item ++ cs) := by
  cases n with
  | zero => exact .cons item cs [] (by rwa [List.append_nil]) h
  | succ n =>
    obtain ⟨inner, rest, rfl, items, outer⟩ := h
    exact ⟨item ++ inner, rest, (List.append_assoc ..).symm, .cons item inner _ hi items, outer⟩

theorem Closes.open (h : Closes d (n + 1) cs) : Closes d n ('(' :: cs) := by
  obtain ⟨inner, rest, rfl, items, outer⟩ := h
  have grouped := outer.cons (.group inner rest items)
  rwa [List.cons_append, List.append_assoc] at grouped

theorem Closes.close (h : Closes d n cs) : Closes d (n + 1) (')' :: cs) :=
  ⟨[], cs, rfl, .nil _, h⟩

end Closes

/-- A text that leaves quoted text begins with the rest of a literal. -/
theorem exists_units {d : Dialect} {q : Char} {n : Nat} {cs : List Char} {t : State}
    (h : run d ⟨.quoted q, n⟩ cs = .ok t) (ht : t.mode.isOutside = true) :
    ∃ (units : List (List Char)) (rest : List Char), cs = units.flatten ++ q :: rest ∧
      (∀ u ∈ units, LiteralUnit d q u) ∧ run d ⟨.ended q, n⟩ rest = .ok t := by
  -- An escape takes two characters, so the induction is on the length.
  induction hl : cs.length using Nat.strongRecOn generalizing cs with
  | ind length ih =>
    have extend {u rest : List Char} (hu : LiteralUnit d q u) (shorter : rest.length < length)
        (hr : run d ⟨.quoted q, n⟩ rest = .ok t) :
        ∃ (units : List (List Char)) (last : List Char), u ++ rest = units.flatten ++ q :: last ∧
          (∀ v ∈ units, LiteralUnit d q v) ∧ run d ⟨.ended q, n⟩ last = .ok t := by
      obtain ⟨units, last, rfl, hv, run⟩ := ih rest.length shorter hr rfl
      refine ⟨u :: units, last, by simp, ?_, run⟩
      exact List.forall_mem_cons.2 ⟨hu, hv⟩
    cases cs with
    | nil =>
      cases h
      cases ht
    | cons c cs =>
      rw [List.length_cons] at hl
      obtain ⟨s, hs, hr⟩ := run_cons_eq_ok_iff.1 h
      by_cases he : c = '\\' ∧ d = .bigQuery
      · obtain ⟨rfl, hd⟩ := he
        cases (step_backslash hd).symm.trans hs
        cases cs with
        | nil =>
          cases hr
          cases ht
        | cons x cs =>
          rw [List.length_cons] at hl
          exact extend (.escaped x hd) (by omega) hr
      · by_cases hc : c = q
        · subst hc
          have ends : step d ⟨.quoted c, n⟩ c = .ok ⟨.ended c, n⟩ := by
            rw [← escapesByBackslash_iff] at he
            simp [step, he]
          cases ends.symm.trans hs
          exact ⟨[], cs, rfl, by simp, hr⟩
        · cases (step_quoted_of_ne hc he).symm.trans hs
          exact extend (.single c hc he) (by omega) hr

/-- The machine does not go on behind the beginning of a comment. -/
theorem head?_ne_of_run {d : Dialect} {n : Nat} {cs : List Char} {t : State} :
    (run d ⟨.dash, n⟩ cs = .ok t → cs.head? ≠ some '-') ∧
      (run d ⟨.slash, n⟩ cs = .ok t → cs.head? ≠ some '*') := by
  cases cs with
  | nil => simp
  | cons c cs =>
    constructor
    · intro h eq
      cases Option.some.inj eq
      cases h
    · intro h eq
      cases Option.some.inj eq
      cases h

theorem standsPlain_of_isPlain {d : Dialect} {c : Char} (h : IsPlain d c) (next : Option Char) :
    StandsPlain d c next := by
  obtain ⟨ordinary, hash⟩ := h
  simp only [List.mem_cons, List.not_mem_nil, or_false, not_or] at ordinary
  obtain ⟨h₁, h₂, h₃, h₄, h₅, h₆, hd, hs⟩ := ordinary
  refine ⟨?_, hash, fun h => hd h.1, fun h => hs h.1⟩
  simp only [List.mem_cons, List.not_mem_nil, or_false, not_or]
  exact ⟨h₁, h₂, h₃, h₄, h₅, h₆⟩

theorem closes_of_run {d : Dialect} {s t : State} {cs : List Char} (hs : s.Rests d)
    (h : run d s cs = .ok t) (ht : t.mode.isOutside = true) (hn : t.depth = 0) :
    Closes d s.depth cs := by
  -- A literal is taken off as a whole, so the induction is on the length again.
  induction hl : cs.length using Nat.strongRecOn generalizing cs s with
  | ind length ih =>
    cases cs with
    | nil =>
      cases h
      rw [hn]
      exact .nil []
    | cons c cs =>
      rw [List.length_cons] at hl
      obtain ⟨u, hu, hr⟩ := run_cons_eq_ok_iff.1 h
      have next (hu : u.Rests d) : Closes d u.depth cs := ih cs.length (by omega) hu hr rfl
      rcases (codeStep_eq_ok_iff ..).1 (codeStep_of_step hs hu) with
        ⟨hq, rfl⟩ | ⟨rfl, rfl⟩ | ⟨rfl, m, hm, rfl⟩ | ⟨rfl, rfl⟩ | ⟨rfl, rfl⟩ | ⟨hc, rfl⟩
      · obtain ⟨units, rest, rfl, hunits, hrest⟩ := exists_units hr ht
        have outer : Closes d s.depth rest := by
          have shorter : rest.length < length := by
            rw [List.length_append, List.length_cons] at hl
            omega
          exact ih (s := ⟨.ended c, s.depth⟩) rest.length shorter (meets_ended hq _ rest).rests
            hrest rfl
        have whole := outer.cons (.literal _ rest (.enclose c units hq hunits))
        rwa [List.cons_append, List.append_assoc] at whole
      · exact (next (rests_code d _)).open
      · rw [hm]
        exact (next (rests_code d _)).close
      · have behind := head?_ne_of_run.1 hr
        exact (next (rests_dash d _)).cons (.plain '-' cs (by simpa [StandsPlain] using behind))
      · have behind := head?_ne_of_run.2 hr
        exact (next (rests_slash d _)).cons (.plain '/' cs (by simpa [StandsPlain] using behind))
      · exact (next (rests_code d _)).cons (.plain c cs (standsPlain_of_isPlain hc _))

/-! ### Fragments -/

theorem endProblem_eq_none_iff (s : State) :
    s.endProblem = none ↔ s.mode.isOutside = true ∧ s.depth = 0 := by
  unfold State.endProblem
  cases s.mode.isOutside <;> simp

theorem runProblem_eq_none_iff (d : Dialect) (cs : List Char) :
    runProblem d cs = none ↔
      ∃ t, checkedRun d .start cs = .ok t ∧ t.mode.isOutside = true ∧ t.depth = 0 := by
  unfold runProblem
  cases checkedRun d .start cs with
  | error p => simp
  | ok t => simp [endProblem_eq_none_iff]

theorem run_closes_iff_items (d : Dialect) (cs : List Char) :
    (∃ t, run d .start cs = .ok t ∧ t.mode.isOutside = true ∧ t.depth = 0) ↔ Items d cs [] := by
  constructor
  · rintro ⟨t, ht, outside, depth⟩
    exact closes_of_run (rests_code d 0) ht outside depth
  · intro items
    obtain ⟨t, ht, depth, meets⟩ := items.exists_run (meets_code d 0 (cs ++ []))
    exact ⟨t, ht, meets.rests.1, depth⟩

theorem runProblem_eq_none_iff_items {d : Dialect} {cs : List Char} (h : ∀ c ∈ cs, c ≠ '\x00') :
    runProblem d cs = none ↔ Items d cs [] := by
  rw [runProblem_eq_none_iff, checkedRun_eq_run d .start cs h, run_closes_iff_items]

/-- A text without NUL makes a valid expression exactly when it is not blank and the grammar derives
it. -/
theorem valid_fragment_iff_derived (d : Dialect) (sql : String) (h : '\x00' ∉ sql.toList) :
    (Expr.ofFragment d sql).isValid = true ↔
      ¬(∀ c ∈ sql.toList, Text.isBlank c = true) ∧ Items d sql.toList [] := by
  have clean : ∀ c ∈ sql.toList, c ≠ '\x00' := fun c hc eq => h (eq ▸ hc)
  have blank : Text.isBlankText sql = false ↔ ¬∀ c ∈ sql.toList, Text.isBlank c = true := by
    rw [← List.all_eq_true, Bool.not_eq_true]
    rfl
  rw [isValid_ofFragment_iff, problem_eq_none_iff, runProblem_eq_none_iff_items clean, blank]

/-- An escaped delimiter in front of the last one, adjacent literals and an operator at the end; and the
same escape where it takes the last delimiter away. -/
theorem valid_fragment_iff_derived_escapes :
    Items .bigQuery "f('it''s', \"\"\"a\\\"\") / (x -) -".toList [] ∧
      ¬Items .bigQuery "f('it\\')".toList [] := by
  constructor
  · have valid :
        (Expr.ofFragment .bigQuery "f('it''s', \"\"\"a\\\"\") / (x -) -").isValid = true := by
      decide +kernel
    exact ((valid_fragment_iff_derived .bigQuery _ (by decide +kernel)).1 valid).2
  · have refused : ¬(Expr.ofFragment .bigQuery "f('it\\')").isValid = true := by decide +kernel
    have letter : ¬∀ c ∈ "f('it\\')".toList, Text.isBlank c = true :=
      fun blank => absurd (blank 'f' (by simp)) (by decide)
    intro derived
    exact refused ((valid_fragment_iff_derived .bigQuery _ (by decide +kernel)).2 ⟨letter, derived⟩)

end LayeredSql.Fragment
