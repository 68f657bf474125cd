import LayeredSql.Proofs.Reading
import Mathlib.Data.List.TakeWhile

/-!
# Fragments under the literal forms of the target systems

The lexical check knows one form of quoted text for each delimiter. The systems that run the
statements know more: literals between three quotes in BigQuery, literals with backslash escapes
behind an `E` and literals between dollar signs in PostgreSQL. Here a text is cut into tokens by the
rules of the target system, and the tokens are compared with the reading of the lexical check. The
two agree on where quoted text is until the check takes the end of one of those longer forms for a
place inside quoted text; only behind such an end can an accepted fragment hold a terminator or a
comment.
-/

namespace LayeredSql.Lexing

open Fragment

/-! ### Quoted text -/

/-- How quoted text ends. -/
structure Quoting where
  closing : List Char
  /-- A backslash takes the next character with it. -/
  backslash : Bool
  /-- Two closing characters in a row stand for one. -/
  doubling : Bool
deriving DecidableEq, Repr

namespace Quoting

def isPair (k : Quoting) (c e : Char) : Bool :=
  (k.backslash && c = '\\') || (k.doubling && k.closing = [c] && e = c)

/-- The quoted text behind its opening, with its closing, and what follows it. Quoted text without a
closing goes on to the end. -/
def read (k : Quoting) : List Char → List Char × List Char
  | [] => ([], [])
  | [c] => ([c], [])
  | c :: e :: cs =>
    if k.isPair c e then (c :: e :: (k.read cs).1, (k.read cs).2)
    else if k.closing.isPrefixOf (c :: e :: cs) then
      (k.closing, (c :: e :: cs).drop k.closing.length)
    else (c :: (k.read (e :: cs)).1, (k.read (e :: cs)).2)

end Quoting

/-- Quoted text between two delimiters. Names between backquotes take the same escapes as literals. -/
def plain? (d : Dialect) (q : Char) : Option (List Char × Quoting) :=
  if q = '\x27' ∨ q = '"' ∨ q = '\x60' ∧ d = .bigQuery then
    some ([q], ⟨[q], d.escapesByBackslash, !d.escapesByBackslash⟩)
  else none

def isTagChar (c : Char) : Bool := c.isAlphanum || c = '_' || 0x80 ≤ c.toNat

/-- The tag between the two dollar signs that the text starts with. It is empty or a name. -/
def tag? : List Char → Option (List Char)
  | '$' :: cs =>
    let tag := cs.takeWhile isTagChar
    if (cs.drop tag.length).head? = some '$' ∧ (tag.head?.all fun c => !c.isDigit) then some tag
    else none
  | _ => none

/-- The openings of more than one character. -/
def long? : Dialect → List Char → Option (List Char × Quoting)
  | .bigQuery, a :: b :: c :: _ =>
    if (a = '\x27' ∨ a = '"') ∧ b = a ∧ c = a then some ([a, b, c], ⟨[a, b, c], true, false⟩)
    else none
  | .postgreSql, a :: b :: cs =>
    if (a = 'E' ∨ a = 'e') ∧ b = '\x27' then some ([a, b], ⟨[b], true, true⟩)
    else (tag? (a :: b :: cs)).map fun tag =>
      let dollars := '$' :: tag ++ ['$']
      (dollars, ⟨dollars, false, false⟩)
  | _, _ => none

def opening (d : Dialect) (cs : List Char) : Option (List Char × Quoting) :=
  (long? d cs).or (cs.head?.bind (plain? d))

theorem plain?_eq_some_iff {d : Dialect} {q : Char} {o : List Char} {k : Quoting} :
    plain? d q = some (o, k) ↔ IsDelimiter d q ∧ o = [q] ∧
      k = ⟨[q], d.escapesByBackslash, !d.escapesByBackslash⟩ := by
  unfold plain?
  split
  · rename_i hq
    rw [Option.some.injEq, Prod.mk.injEq, eq_comm (a := o), eq_comm (a := k)]
    exact (and_iff_right hq).symm
  · rename_i hq
    exact iff_of_false nofun fun h => hq h.1

theorem tag?_eq_some {cs tag : List Char} (h : tag? cs = some tag) :
    ('$' :: tag ++ ['$']) <+: cs := by
  unfold tag? at h
  split at h
  · rename_i rest
    simp only [Option.ite_none_right_eq_some, Option.some.injEq] at h
    obtain ⟨⟨next, -⟩, rfl⟩ := h
    obtain ⟨more, hm⟩ : ∃ more, rest.drop (rest.takeWhile isTagChar).length = '$' :: more := by
      cases hd : rest.drop (rest.takeWhile isTagChar).length with
      | nil =>
        rw [hd] at next
        cases next
      | cons c more =>
        rw [hd] at next
        cases next
        exact ⟨more, rfl⟩
    have whole : rest.takeWhile isTagChar ++ '$' :: more = rest := by
      rw [← hm]
      exact List.prefix_iff_eq_append.1 (List.takeWhile_prefix isTagChar)
    refine ⟨more, ?_⟩
    rw [List.append_assoc, List.singleton_append, List.cons_append, whole]
  · cases h

theorem long?_eq_some {d : Dialect} {cs o : List Char} {k : Quoting}
    (h : long? d cs = some (o, k)) : o <+: cs ∧ 1 < o.length := by
  unfold long? at h
  split at h
  · rename_i a b c rest
    split at h
    · cases h
      exact ⟨⟨rest, rfl⟩, by simp⟩
    · cases h
  · rename_i a b rest
    split at h
    · cases h
      exact ⟨⟨rest, rfl⟩, by simp⟩
    · obtain ⟨tag, ht, heq⟩ := Option.map_eq_some_iff.1 h
      cases heq
      exact ⟨tag?_eq_some ht, by simp⟩
  · cases h

/-- An opening stands in front of the text; if it is one character, that is a delimiter which also
ends the quoted text. -/
theorem opening_eq_some {d : Dialect} {cs o : List Char} {k : Quoting}
    (h : opening d cs = some (o, k)) :
    o <+: cs ∧ (1 < o.length ∨ ∃ q, IsDelimiter d q ∧ o = [q] ∧
      k = ⟨[q], d.escapesByBackslash, !d.escapesByBackslash⟩) := by
  rcases Option.or_eq_some_iff.1 h with hl | ⟨-, hp⟩
  · obtain ⟨front, long⟩ := long?_eq_some hl
    exact ⟨front, Or.inl long⟩
  · obtain ⟨q, hq, hp⟩ := Option.bind_eq_some_iff.1 hp
    obtain ⟨delimiter, rfl, hk⟩ := plain?_eq_some_iff.1 hp
    obtain ⟨rest, rfl⟩ := List.head?_eq_some_iff.1 hq
    exact ⟨⟨rest, rfl⟩, Or.inr ⟨q, delimiter, rfl, hk⟩⟩

theorem not_isDelimiter_of_opening {d : Dialect} {c : Char} {cs : List Char}
    (h : opening d (c :: cs) = none) : ¬IsDelimiter d c := by
  intro hc
  have plain := plain?_eq_some_iff.2 ⟨hc, rfl, rfl⟩
  rw [opening, Option.or_eq_none_iff] at h
  exact absurd (h.2.symm.trans plain) nofun

theorem length_pos_of_opening {d : Dialect} {cs o : List Char} {k : Quoting}
    (h : opening d cs = some (o, k)) : 0 < o.length := by
  obtain ⟨-, long | ⟨q, -, rfl, -⟩⟩ := opening_eq_some h
  · omega
  · exact Nat.one_pos

theorem Quoting.read_append (k : Quoting) (cs : List Char) :
    (k.read cs).1 ++ (k.read cs).2 = cs := by
  induction cs using Quoting.read.induct k with
  | case1 => rfl
  | case2 c => rfl
  | case3 c e cs pair ih =>
    rw [read, if_pos pair]
    exact congrArg (c :: e :: ·) ih
  | case4 c e cs pair closed =>
    rw [read, if_neg pair, if_pos closed]
    exact List.prefix_iff_eq_append.1 (List.isPrefixOf_iff_prefix.1 closed)
  | case5 c e cs pair closed ih =>
    rw [read, if_neg pair, if_neg closed]
    exact congrArg (c :: ·) ih

theorem Quoting.length_read_le (k : Quoting) (cs : List Char) :
    (k.read cs).2.length ≤ cs.length := by
  have whole := congrArg List.length (k.read_append cs)
  rw [List.length_append] at whole
  omega

/-! ### Tokens -/

inductive Token where
  | quoted (opening body : List Char)
  | word (text : List Char)
  | sign (c : Char)
deriving DecidableEq, Repr

def Token.text : Token → List Char
  | quoted opening body => opening ++ body
  | word text => text
  | sign c => [c]

/-- Quoted text that opens with more than a delimiter. -/
def Token.isLong : Token → Bool
  | quoted opening _ => 1 < opening.length
  | _ => false

/-- A word does not start with a digit or a dollar sign. -/
def isWordStart (d : Dialect) (c : Char) : Bool := d.isWordChar c && !c.isDigit && c ≠ '$'

/-- The tokens of a text. A word is one token, so that no opening is looked for inside it. -/
def tokens (d : Dialect) : List Char → List Token
  | [] => []
  | c :: cs =>
    match _h : opening d (c :: cs) with
    | some (o, k) =>
      .quoted o (k.read ((c :: cs).drop o.length)).1 ::
        tokens d (k.read ((c :: cs).drop o.length)).2
    | none =>
      if isWordStart d c then
        .word (c :: cs.takeWhile d.isWordChar) :: tokens d (cs.dropWhile d.isWordChar)
      else .sign c :: tokens d cs
termination_by cs => cs.length
decreasing_by
  · have short := k.length_read_le ((c :: cs).drop o.length)
    have positive := length_pos_of_opening _h
    rw [List.length_drop] at short
    rw [List.length_cons] at short ⊢
    omega
  · have short := (List.dropWhile_suffix d.isWordChar (l := cs)).length_le
    rw [List.length_cons]
    omega
  · simp

theorem tokens_of_opening_eq_some {d : Dialect} {c : Char} {cs o : List Char} {k : Quoting}
    (h : opening d (c :: cs) = some (o, k)) :
    tokens d (c :: cs) = .quoted o (k.read ((c :: cs).drop o.length)).1 ::
      tokens d (k.read ((c :: cs).drop o.length)).2 := by
  rw [tokens]
  split
  · rename_i heq
    cases h.symm.trans heq
    rfl
  · rename_i heq
    cases h.symm.trans heq

theorem tokens_of_opening_eq_none {d : Dialect} {c : Char} {cs : List Char}
    (h : opening d (c :: cs) = none) :
    tokens d (c :: cs) = if isWordStart d c then
        .word (c :: cs.takeWhile d.isWordChar) :: tokens d (cs.dropWhile d.isWordChar)
      else .sign c :: tokens d cs := by
  rw [tokens]
  split
  · rename_i heq
    cases h.symm.trans heq
  · rfl

def startsForbidden (d : Dialect) : List Token → Bool
  | .sign c :: ts =>
    c = ';' || (c = '#' && d = .bigQuery) || (c = '-' && ts.head? = some (.sign '-')) ||
      (c = '/' && ts.head? = some (.sign '*'))
  | _ => false

/-- A terminator or a comment stands outside quoted text. -/
def escapes (d : Dialect) : List Token → Bool
  | [] => false
  | t :: ts => startsForbidden d (t :: ts) || escapes d ts

/-! ### The reading of a token -/

/-- The lexical check reads quoted text between two delimiters as the target system does. -/
theorem run_read_plain {d : Dialect} {q : Char} (hq : IsDelimiter d q) (n : Nat) (cs : List Char)
    (h : ((Quoting.mk [q] d.escapesByBackslash (!d.escapesByBackslash)).read cs).2 ≠ []) :
    run d ⟨.quoted q, n⟩ ((Quoting.mk [q] d.escapesByBackslash (!d.escapesByBackslash)).read cs).1 =
      .ok ⟨.ended q, n⟩ := by
  have visible : q ≠ '\\' := by rcases hq with rfl | rfl | ⟨rfl, -⟩ <;> decide
  generalize hk : Quoting.mk [q] d.escapesByBackslash (!d.escapesByBackslash) = k at h ⊢
  induction cs using Quoting.read.induct k with
  | case1 => exact absurd rfl h
  | case2 c => exact absurd rfl h
  | case3 c e cs pair ih =>
    rw [Quoting.read, if_pos pair] at h ⊢
    have both : run d ⟨.quoted q, n⟩ [c, e] = .ok ⟨.quoted q, n⟩ := by
      subst hk
      cases d with
      | bigQuery =>
        have hc : c = '\\' := by simpa [Quoting.isPair, Dialect.escapesByBackslash] using pair
        simp [run_cons, run_nil, step, hc, Dialect.escapesByBackslash, Except.bind]
      | postgreSql =>
        obtain ⟨rfl, rfl⟩ : q = c ∧ e = c := by
          simpa [Quoting.isPair, Dialect.escapesByBackslash] using pair
        simp [run_cons, run_nil, step, Dialect.escapesByBackslash, Except.bind]
    show run d ⟨.quoted q, n⟩ ([c, e] ++ (k.read cs).1) = _
    rw [run_append, both]
    exact ih h
  | case4 c e cs pair closed =>
    rw [Quoting.read, if_neg pair, if_pos closed]
    subst hk
    show run d ⟨.quoted q, n⟩ [q] = _
    simp [run_cons, run_nil, step, visible, Except.bind]
  | case5 c e cs pair closed ih =>
    rw [Quoting.read, if_neg pair, if_neg closed] at h ⊢
    have inside : step d ⟨.quoted q, n⟩ c = .ok ⟨.quoted q, n⟩ := by
      subst hk
      have other : c ≠ q := by
        rintro rfl
        simp at closed
      have escape : ¬(c = '\\' ∧ d.escapesByBackslash = true) := by
        rintro ⟨hc, hd⟩
        simp [Quoting.isPair, hc, hd] at pair
      simp only [step, if_neg escape, if_neg other]
    rw [run_cons, inside]
    exact ih h

theorem not_isDelimiter_of_isWordChar {d : Dialect} {c : Char} (h : d.isWordChar c = true) :
    ¬IsDelimiter d c := by
  rintro (rfl | rfl | ⟨rfl, rfl⟩)
  · revert h
    cases d <;> decide
  · revert h
    cases d <;> decide
  · revert h
    decide

/-- The first token of a text: a longer form, quoted text between delimiters, or characters that
cannot open quoted text. -/
theorem tokens_cases (d : Dialect) {cs : List Char} (h : cs ≠ []) :
    ∃ t rest, tokens d cs = t :: tokens d rest ∧ cs = t.text ++ rest ∧ rest.length < cs.length ∧
      (t.isLong = true ∨
        (∃ q body, IsDelimiter d q ∧ t = .quoted [q] body ∧
          (rest ≠ [] → ∀ n, run d ⟨.quoted q, n⟩ body = .ok ⟨.ended q, n⟩)) ∨
        ∀ c ∈ t.text, ¬IsDelimiter d c) := by
  obtain ⟨c, cs, rfl⟩ := List.exists_cons_of_ne_nil h
  cases ho : opening d (c :: cs) with
  | some found =>
    obtain ⟨o, k⟩ := found
    obtain ⟨⟨behind, whole⟩, form⟩ := opening_eq_some ho
    have drop : (c :: cs).drop o.length = behind := by rw [← whole, List.drop_left]
    have positive := length_pos_of_opening ho
    have short := k.length_read_le behind
    have total := congrArg List.length whole
    rw [List.length_append] at total
    refine ⟨.quoted o (k.read behind).1, (k.read behind).2, ?_, ?_, by omega, ?_⟩
    · rw [tokens_of_opening_eq_some ho, drop]
    · rw [Token.text, List.append_assoc, k.read_append, whole]
    · rcases form with long | ⟨q, hq, rfl, rfl⟩
      · exact Or.inl (decide_eq_true long)
      · exact Or.inr (Or.inl ⟨q, _, hq, rfl, fun hr n => run_read_plain hq n behind hr⟩)
  | none =>
    have first := not_isDelimiter_of_opening ho
    by_cases word : isWordStart d c = true
    · have start : d.isWordChar c = true := by
        simp only [isWordStart, Bool.and_eq_true] at word
        exact word.1.1
      have short := (List.dropWhile_suffix d.isWordChar (l := cs)).length_le
      refine ⟨.word (c :: cs.takeWhile d.isWordChar), cs.dropWhile d.isWordChar, ?_, ?_, ?_, ?_⟩
      · rw [tokens_of_opening_eq_none ho, if_pos word]
      · rw [Token.text, List.cons_append, List.takeWhile_append_dropWhile]
      · rw [List.length_cons]
        omega
      · refine Or.inr (Or.inr ?_)
        intro x hx
        rcases List.mem_cons.1 hx with rfl | hx
        · exact first
        · exact not_isDelimiter_of_isWordChar (List.mem_takeWhile_imp hx)
    · refine ⟨.sign c, cs, ?_, rfl, by simp, Or.inr (Or.inr ?_)⟩
      · rw [tokens_of_opening_eq_none ho, if_neg word]
      · intro x hx
        rw [List.mem_singleton.1 hx]
        exact first

theorem flatMap_text_tokens (d : Dialect) (cs : List Char) :
    (tokens d cs).flatMap Token.text = cs := by
  induction hn : cs.length using Nat.strongRecOn generalizing cs with
  | ind n ih =>
    by_cases empty : cs = []
    · rw [empty, tokens]
      rfl
    · obtain ⟨t, rest, first, whole, short, -⟩ := tokens_cases d empty
      rw [first, List.flatMap_cons, ih rest.length (hn ▸ short) rest rfl, ← whole]

/-! ### Both readings side by side -/

/-- From outside quoted text the lexical check does not get past a terminator or a comment. -/
theorem startsForbidden_eq_false {d : Dialect} {s t : State} {cs : List Char} (hs : s.Rests d)
    (h : run d s cs = .ok t) : startsForbidden d (tokens d cs) = false := by
  have texts := flatMap_text_tokens d cs
  cases ht : tokens d cs with
  | nil => rfl
  | cons first more =>
    rw [ht, List.flatMap_cons] at texts
    cases first with
    | quoted o body => rfl
    | word text => rfl
    | sign c =>
      rw [← texts] at h
      obtain ⟨u, hu, hr⟩ := run_cons_eq_ok_iff.1 h
      have next (x : Char) (hx : more.head? = some (.sign x)) : ∃ v, step d u x = .ok v := by
        obtain ⟨rest, rfl⟩ := List.head?_eq_some_iff.1 hx
        obtain ⟨v, hv, -⟩ := run_cons_eq_ok_iff.1 hr
        exact ⟨v, hv⟩
      have code := (codeStep_eq_ok_iff d s.depth c u).1 (codeStep_of_step hs hu)
      rcases code with ⟨hc, -⟩ | ⟨rfl, -⟩ | ⟨rfl, -⟩ | ⟨rfl, rfl⟩ | ⟨rfl, rfl⟩ | ⟨hc, -⟩
      · rcases hc with rfl | rfl | ⟨rfl, -⟩ <;> simp [startsForbidden]
      · simp [startsForbidden]
      · simp [startsForbidden]
      · have single : more.head? ≠ some (.sign '-') := by
          intro hx
          obtain ⟨v, hv⟩ := next '-' hx
          cases hv
        simp [startsForbidden, single]
      · have single : more.head? ≠ some (.sign '*') := by
          intro hx
          obtain ⟨v, hv⟩ := next '*' hx
          cases hv
        simp [startsForbidden, single]
      · obtain ⟨hc, hash⟩ := hc
        simp only [List.mem_cons, List.not_mem_nil, or_false, not_or] at hc
        simpa [startsForbidden, hc] using hash

theorem escapes_append {d : Dialect} (front : List Token) {back : List Token}
    (h : escapes d back = true) : escapes d (front ++ back) = true := by
  induction front with
  | nil => exact h
  | cons t front ih => rw [List.cons_append, escapes, ih, Bool.or_true]

/-- A terminator or a comment stands where the lexical check, coming from the state `s`, is inside
quoted text. -/
def Hidden (d : Dialect) (s : State) (ts : List Token) : Prop :=
  ∃ front back u, ts = front ++ back ∧ startsForbidden d back = true ∧
    run d s (front.flatMap Token.text) = .ok u ∧ u.mode.isOutside = false

theorem Hidden.escapes {d : Dialect} {s : State} {ts : List Token} (h : Hidden d s ts) :
    escapes d ts = true := by
  obtain ⟨front, back, -, rfl, hb, -⟩ := h
  refine escapes_append front ?_
  cases back with
  | nil => cases hb
  | cons t back => rw [Lexing.escapes, hb, Bool.true_or]

theorem hidden_of_escapes {d : Dialect} {s t : State} {cs : List Char}
    (hs : ∀ q, s.mode.delimiter? = some q → IsDelimiter d q) (hr : run d s cs = .ok t)
    (he : escapes d (tokens d cs) = true) : Hidden d s (tokens d cs) := by
  induction hn : cs.length using Nat.strongRecOn generalizing cs s with
  | ind n ih =>
    by_cases forbidden : startsForbidden d (tokens d cs) = true
    · cases outside : s.mode.isOutside with
      | true =>
        rw [startsForbidden_eq_false ⟨outside, hs⟩ hr] at forbidden
        cases forbidden
      | false => exact ⟨[], tokens d cs, s, rfl, forbidden, rfl, outside⟩
    · by_cases empty : cs = []
      · rw [empty, tokens] at he
        cases he
      · obtain ⟨first, rest, split, whole, short, -⟩ := tokens_cases d empty
        rw [Bool.not_eq_true, split] at forbidden
        rw [split, escapes, forbidden, Bool.false_or] at he
        rw [whole] at hr
        obtain ⟨u, hu, hrest⟩ := run_append_eq_ok_iff.1 hr
        obtain ⟨front, back, v, hsplit, hb, hv, inside⟩ :=
          ih rest.length (hn ▸ short) (delimiters_of_run hs hu) hrest he rfl
        refine ⟨first :: front, back, v, by rw [split, hsplit, List.cons_append], hb, ?_, inside⟩
        rw [List.flatMap_cons, run_append_eq_ok_iff]
        exact ⟨u, hu, hv⟩

/-- The lexical check, coming from the state `s`, is outside quoted text in front of a longer form and
inside behind it, and a terminator or a comment is hidden from it further on. -/
def Misread (d : Dialect) (s : State) (ts : List Token) : Prop :=
  ∃ before t after u v, ts = before ++ t :: after ∧ t.isLong = true ∧
    run d s (before.flatMap Token.text) = .ok u ∧ u.mode.isOutside = true ∧
    run d u t.text = .ok v ∧ v.mode.isOutside = false ∧ Hidden d v after

theorem Misread.cons {d : Dialect} {s u : State} {t : Token} {ts : List Token}
    (ht : run d s t.text = .ok u) (h : Misread d u ts) : Misread d s (t :: ts) := by
  obtain ⟨before, long, after, v, w, rfl, hl, hv, rest⟩ := h
  refine ⟨t :: before, long, after, v, w, rfl, hl, ?_, rest⟩
  rw [List.flatMap_cons, run_append_eq_ok_iff]
  exact ⟨u, ht, hv⟩

theorem Misread.escapes {d : Dialect} {s : State} {ts : List Token} (h : Misread d s ts) :
    escapes d ts = true := by
  obtain ⟨before, long, after, u, v, rfl, -, -, -, -, -, hidden⟩ := h
  rw [← List.singleton_append]
  exact escapes_append before (escapes_append [long] hidden.escapes)

theorem misread_of_escapes {d : Dialect} {s t : State} {cs : List Char} (hs : s.Rests d)
    (hr : run d s cs = .ok t) (he : escapes d (tokens d cs) = true) : Misread d s (tokens d cs) := by
  -- token by token: while the check is outside at the end of each token, it sees what the target sees
  induction hn : cs.length using Nat.strongRecOn generalizing cs s with
  | ind n ih =>
    by_cases empty : cs = []
    · rw [empty, tokens] at he
      cases he
    · have allowed := startsForbidden_eq_false hs hr
      obtain ⟨first, rest, split, whole, short, form⟩ := tokens_cases d empty
      rw [split] at allowed he ⊢
      rw [escapes, allowed, Bool.false_or] at he
      have more : rest ≠ [] := by
        rintro rfl
        rw [tokens] at he
        cases he
      rw [whole] at hr
      obtain ⟨u, hu, hrest⟩ := run_append_eq_ok_iff.1 hr
      have delimiters := delimiters_of_run hs.2 hu
      cases outside : u.mode.isOutside with
      | true =>
        exact (ih rest.length (hn ▸ short) ⟨outside, delimiters⟩ hrest he rfl).cons hu
      | false =>
        -- it ends inside behind a longer form only; between delimiters and in plain text it cannot
        rcases form with long | ⟨q, body, hq, rfl, closes⟩ | free
        · have hidden := hidden_of_escapes delimiters hrest he
          exact ⟨[], first, tokens d rest, s, u, rfl, long, rfl, hs.1, hu, outside, hidden⟩
        · obtain ⟨v, hv, hb⟩ := run_cons_eq_ok_iff.1 hu
          have opens := codeStep_of_step hs hv
          rw [(codeStep_eq_ok_iff d s.depth q _).2 (Or.inl ⟨hq, rfl⟩)] at opens
          cases opens
          cases (closes more s.depth).symm.trans hb
          cases outside
        · have rests := rests_of_run hs free hu
          exact absurd rests.1 (by simp [outside])

/-! ### Accepted fragments -/

/-- An accepted fragment holds a terminator or a comment outside quoted text exactly if the lexical
check misreads one of the longer forms in front of it. Fragments with none of these forms hold
neither. -/
theorem accepted_fragment_escapes_iff {d : Dialect} {sql : String}
    (h : (Expr.ofFragment d sql).isValid = true) :
    (escapes d (tokens d sql.toList) = true ↔ Misread d .start (tokens d sql.toList)) ∧
    ((∀ t ∈ tokens d sql.toList, t.isLong = false) → escapes d (tokens d sql.toList) = false) := by
  obtain ⟨t, hr, -, -⟩ := reads_of_problem_eq_none ((isValid_ofFragment_iff d sql).1 h)
  have misread := misread_of_escapes (rests_code d 0) hr
  refine ⟨⟨misread, Misread.escapes⟩, ?_⟩
  intro short
  by_contra he
  rw [Bool.not_eq_false] at he
  obtain ⟨before, long, after, -, -, split, hl, -⟩ := misread he
  have plain := short long (split ▸ List.mem_append_right _ (List.mem_cons_self ..))
  rw [hl] at plain
  cases plain

/-- Terminators and comments inside delimiters do no harm. -/
theorem accepted_fragment_escapes_never_when_plain :
    (Expr.ofFragment .postgreSql "'it''s; --' || \"/*\"\";\"").isValid = true ∧
      escapes .postgreSql (tokens .postgreSql "'it''s; --' || \"/*\"\";\"".toList) = false := by
  have valid : (Expr.ofFragment .postgreSql "'it''s; --' || \"/*\"\";\"").isValid = true := by
    decide +kernel
  exact ⟨valid, (accepted_fragment_escapes_iff valid).2 (by decide +kernel)⟩

/-- Each of the longer forms can carry a terminator past the lexical check. -/
theorem accepted_fragment_escapes_in_each_long_form :
    ((Expr.ofFragment .bigQuery "''' ' ''' ; ''' ' '''").isValid = true ∧
      escapes .bigQuery (tokens .bigQuery "''' ' ''' ; ''' ' '''".toList) = true) ∧
    ((Expr.ofFragment .postgreSql "E'\\'' ; SELECT E'\\''").isValid = true ∧
      escapes .postgreSql (tokens .postgreSql "E'\\'' ; SELECT E'\\''".toList) = true) ∧
    (Expr.ofFragment .postgreSql "$$ ' $$ ; $$ ' $$").isValid = true ∧
      escapes .postgreSql (tokens .postgreSql "$$ ' $$ ; $$ ' $$".toList) = true := by
  decide +kernel

end LayeredSql.Lexing
