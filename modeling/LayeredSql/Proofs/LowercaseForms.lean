import LayeredSql.Text.Lowercase
import Mathlib.Tactic.ByContra

/-!
# Lowercase forms within ASCII

Full lowercasing takes two characters from outside ASCII into it: the sign of the kelvin becomes a `k`, and
the capital I with a dot becomes an `i` with a mark behind it. A text of ASCII characters without these two
letters therefore has the lowercase form of another text exactly when the two agree up to the case of the
letters `A` to `Z`.
-/

namespace LayeredSql.Text

/-! ### Characters -/

theorem forall_ascii {P : Char → Prop} (h : ∀ n < 128, P (Char.ofNat n)) {c : Char}
    (hc : c.toNat < 128) : P c := by
  have one := h c.toNat hc
  rw [Char.ofNat_toNat] at one
  exact one

theorem lowerChar_of_ascii {c : Char} (h : c.toNat < 128) : lowerChar c = c.toLower :=
  forall_ascii (P := fun c => lowerChar c = c.toLower) (by decide +kernel) h

/-- Apart from the letters `A` to `Z` and from the sign of the kelvin, the characters of a run have
lowercase forms outside ASCII. -/
def CaseRun.leavesAscii (run : CaseRun) : Bool :=
  run.last < 128 || (run.first = 0x212A && run.last = 0x212A) ||
    (128 ≤ run.target && run.target + (run.last - run.first) < 0xD800) ||
    (0xE000 ≤ run.target && run.target + (run.last - run.first) < 0x110000)

theorem leavesAscii_of_mem_lowerRuns {run : CaseRun} (h : run ∈ lowerRuns) :
    run.leavesAscii = true := by
  have all : lowerRuns.all CaseRun.leavesAscii = true := by decide +kernel
  exact List.all_eq_true.1 all run h

theorem ascii_of_lowerChar {c : Char} (h : (lowerChar c).toNat < 128) :
    c.toNat < 128 ∨ c = '\u212A' := by
  unfold lowerChar at h
  split at h
  · rename_i run found
    have leaves := leavesAscii_of_mem_lowerRuns (List.mem_of_find?_eq_some found)
    have last : c.toNat ≤ run.last := by simpa using List.find?_some found
    unfold CaseRun.lower? at h
    split at h
    · rename_i within
      obtain ⟨first, -, -⟩ := within
      simp only [CaseRun.leavesAscii, Bool.or_eq_true, Bool.and_eq_true, decide_eq_true_eq] at leaves
      rw [Option.map_some, Option.getD_some] at h
      have value {n : Nat} (hn : n.isValidChar) : (Char.ofNat n).toNat = n := by
        rw [Char.ofNat, dif_pos hn]
        rfl
      rcases leaves with ((ascii | kelvin) | below) | above
      · exact Or.inl (by omega)
      · have sign : c.toNat = '\u212A'.toNat := by
          show c.toNat = 0x212A
          omega
        exact Or.inr (Char.toNat_inj.1 sign)
      · rw [value (Or.inl (by omega))] at h
        omega
      · rw [value (Or.inr ⟨by omega, by omega⟩)] at h
        omega
    · exact Or.inl h
  · exact Or.inl h

theorem toLower_of_lowerChar {c : Char} (h : (lowerChar c).toNat < 128) (hk : lowerChar c ≠ 'k') :
    c.toLower = lowerChar c := by
  rcases ascii_of_lowerChar h with ascii | rfl
  · exact (lowerChar_of_ascii ascii).symm
  · exact absurd (by decide +kernel) hk

theorem toNat_toLower_lt_iff {c : Char} : c.toLower.toNat < 128 ↔ c.toNat < 128 := by
  constructor
  · intro h
    by_contra beyond
    have other : ¬(c.val ≥ 'A'.val ∧ c.val ≤ 'Z'.val) := by
      rintro ⟨-, upper⟩
      rw [UInt32.le_iff_toNat_le] at upper
      have value : 'Z'.val.toNat = 90 := by decide
      have same : c.toNat = c.val.toNat := rfl
      omega
    unfold Char.toLower at h
    rw [dif_neg other] at h
    exact beyond h
  · exact forall_ascii (P := fun c => c.toLower.toNat < 128) (by decide +kernel)

/-! ### Texts -/

theorem lowerFrom_of_ascii {cs : List Char} (h : ∀ c ∈ cs, c.toNat < 128) (before : List Char) :
    lowerFrom before cs = cs.map Char.toLower := by
  induction cs generalizing before with
  | nil => rfl
  | cons c rest ih =>
    have ascii := h c (by simp)
    have sigma : c ≠ '\u03A3' := by
      rintro rfl
      exact absurd ascii (by decide)
    have dotted : c ≠ '\u0130' := by
      rintro rfl
      exact absurd ascii (by decide)
    rw [lowerFrom, if_neg sigma, if_neg dotted, ih fun x hx => h x (by simp [hx]),
      lowerChar_of_ascii ascii]
    rfl

/-- Among the characters are no forms of the capital sigma and of the dotted capital I, so each comes from
one character, and that is an ASCII character. -/
theorem map_toLower_of_lowerFrom {before cs target : List Char} (h : lowerFrom before cs = target)
    (ht : ∀ c ∈ target, c.toNat < 128 ∧ c ≠ 'k' ∧ c ≠ 'i') : cs.map Char.toLower = target := by
  induction cs generalizing before target with
  | nil => exact h
  | cons c rest ih =>
    subst h
    by_cases sigma : c = '\u03A3'
    · rw [lowerFrom, if_pos sigma] at ht
      have ascii := (ht _ (List.mem_append_left _ (List.mem_singleton.2 rfl))).1
      split at ascii
      · exact absurd ascii (by decide)
      · exact absurd ascii (by decide)
    · by_cases dotted : c = '\u0130'
      · rw [lowerFrom, if_neg sigma, if_pos dotted] at ht
        exact absurd rfl (ht 'i' (by simp)).2.2
      · rw [lowerFrom, if_neg sigma, if_neg dotted, List.singleton_append] at ht ⊢
        obtain ⟨⟨ascii, notK, -⟩, others⟩ := List.forall_mem_cons.1 ht
        rw [List.map_cons, toLower_of_lowerChar ascii notK, ih rfl others]

/-- Texts agree in lowercase exactly if they do up to the case of `A` to `Z`, where one of them stays within
ASCII and holds neither of the two letters that are forms of other characters. -/
theorem lowercase_eq_iff_of_ascii {text : String}
    (h : ∀ c ∈ text.toList, c.toNat < 128 ∧ c.toLower ≠ 'k' ∧ c.toLower ≠ 'i') (other : String) :
    lowercase other = lowercase text ↔ eqIgnoringAsciiCase other text = true := by
  have form : lowercase text = text.map Char.toLower := by
    rw [← String.toList_inj, lowercase, String.toList_ofList, String.toList_map]
    exact lowerFrom_of_ascii (fun c hc => (h c hc).1) []
  rw [form, eqIgnoringAsciiCase_iff, ← String.toList_inj, lowercase, String.toList_ofList,
    ← String.toList_inj, String.toList_map, String.toList_map]
  have within : ∀ c ∈ text.toList.map Char.toLower, c.toNat < 128 ∧ c ≠ 'k' ∧ c ≠ 'i' := by
    rw [List.forall_mem_map]
    intro c hc
    obtain ⟨ascii, letters⟩ := h c hc
    exact ⟨toNat_toLower_lt_iff.2 ascii, letters⟩
  constructor
  · intro same
    exact map_toLower_of_lowerFrom same within
  · intro same
    have ascii : ∀ c ∈ other.toList, c.toNat < 128 := by
      intro c hc
      refine toNat_toLower_lt_iff.1 (within c.toLower ?_).1
      rw [← same]
      exact List.mem_map_of_mem hc
    rw [lowerFrom_of_ascii ascii, same]

-- the two letters are no exception without reason
example : lowercase "\u212A" = lowercase "k" ∧ eqIgnoringAsciiCase "\u212A" "k" = false ∧
    lowercase "\u0130" = lowercase "i\u0307" := by
  decide +kernel

end LayeredSql.Text
