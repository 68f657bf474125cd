import Mathlib
import LayeredSql.Dialect.Keyword
import LayeredSql.Proofs.LowercaseForms

/-!
# Reserved words in any case

A table of reserved words is searched by halving, and that finds every entry only if the table ascends. The
search compares texts by their code points, which is the order of their UTF-8 bytes. Both tables ascend in
it and hold ASCII capitals only, so a word is reserved exactly if it is some entry up to the case of the
letters `A` to `Z`.
-/

namespace LayeredSql

namespace Text

/-! ### The order of bytes -/

def bytes (text : String) : List UInt8 := text.toUTF8.data.toList

theorem bytes_eq_flatMap (text : String) :
    bytes text = text.toList.flatMap String.utf8EncodeChar := by
  have whole := String.toByteArray_ofList (l := text.toList)
  rw [String.ofList_toList] at whole
  rw [bytes, String.toUTF8_eq_toByteArray, whole, List.utf8Encode, List.toList_data_toByteArray]

/-- A greater number below the bound has the greater bytes, whatever stands behind both. -/
def Ascends (encode : Nat → List UInt8) (bound : Nat) : Prop :=
  ∀ v w, v < w → w < bound → ∀ xs ys, encode v ++ xs < encode w ++ ys

theorem ofNat_cons_lt_cons {m n : Nat} (less : m < n) (byte : n < 256) (xs ys : List UInt8) :
    UInt8.ofNat m :: xs < UInt8.ofNat n :: ys := by
  rw [List.cons_lt_cons_iff, UInt8.lt_iff_toNat_lt, UInt8.toNat_ofNat_of_lt' byte,
    UInt8.toNat_ofNat_of_lt' (less.trans byte)]
  exact .inl less

theorem ascends_one : Ascends (fun v => [UInt8.ofNat v]) 0x80 := by
  intro v w less below xs ys
  exact ofNat_cons_lt_cons less (by omega) xs ys

theorem ascends_lead (count offset : Nat) (room : offset + count ≤ 256) :
    Ascends (fun v => [UInt8.ofNat (v % count + offset)]) count := by
  intro v w less below xs ys
  refine ofNat_cons_lt_cons ?_ ?_ xs ys
  · rw [Nat.mod_eq_of_lt below, Nat.mod_eq_of_lt (less.trans below)]
    omega
  · rw [Nat.mod_eq_of_lt below]
    omega

/-- One more byte for the last six bits. -/
theorem Ascends.trail {encode : Nat → List UInt8} {bound : Nat} (h : Ascends encode bound) :
    Ascends (fun v => encode (v / 64) ++ [UInt8.ofNat (v % 64 + 128)]) (64 * bound) := by
  intro v w less below xs ys
  simp only [List.append_assoc]
  by_cases front : v / 64 < w / 64
  · exact h _ _ front (by omega) _ _
  · have same : v / 64 = w / 64 := by omega
    rw [same]
    refine List.append_left_lt ?_
    exact ofNat_cons_lt_cons (by omega) (by omega) xs ys

theorem ascends_two :
    Ascends (fun v => [UInt8.ofNat (v / 64 % 32 + 192), UInt8.ofNat (v % 64 + 128)]) 0x800 :=
  (ascends_lead 32 192 (by decide)).trail

theorem ascends_three :
    Ascends (fun v => [UInt8.ofNat (v / 4096 % 16 + 224), UInt8.ofNat (v / 64 % 64 + 128),
      UInt8.ofNat (v % 64 + 128)]) 0x10000 := by
  have three := (ascends_lead 16 224 (by decide)).trail.trail
  simp only [Nat.div_div_eq_div_mul] at three
  exact three

theorem ascends_four :
    Ascends (fun v => [UInt8.ofNat (v / 262144 % 8 + 240), UInt8.ofNat (v / 4096 % 64 + 128),
      UInt8.ofNat (v / 64 % 64 + 128), UInt8.ofNat (v % 64 + 128)]) 0x200000 := by
  have four := (ascends_lead 8 240 (by decide)).trail.trail.trail
  simp only [Nat.div_div_eq_div_mul] at four
  exact four

/-- Numbers behind a limit may have other bytes if these are greater than all below it. -/
theorem Ascends.behind {low high : Nat → List UInt8} {limit bound : Nat}
    (hl : Ascends low (limit + 1)) (hh : Ascends high bound)
    (between : ∀ v w, v ≤ limit → limit < w → w < bound → ∀ xs ys, low v ++ xs < high w ++ ys) :
    Ascends (fun v => if v ≤ limit then low v else high v) bound := by
  intro v w less below xs ys
  by_cases wl : w ≤ limit
  · simp only [wl, less.le.trans wl, if_true]
    exact hl v w less (by omega) xs ys
  · by_cases vl : v ≤ limit
    · simp only [wl, vl, if_true, if_false]
      exact between v w vl (by omega) below xs ys
    · simp only [wl, vl, if_false]
      exact hh v w less below xs ys

theorem utf8EncodeChar_append_lt {a b : Char} (h : a < b) (xs ys : List UInt8) :
    String.utf8EncodeChar a ++ xs < String.utf8EncodeChar b ++ ys := by
  have below : b.val.toNat < 0x200000 := by
    rcases b.valid with low | high
    · omega
    · omega
  -- the more bytes a character has, the greater is the first of them
  have long := ascends_three.behind ascends_four (by
    intro v w hv hw hb xs ys
    exact ofNat_cons_lt_cons (by omega) (by omega) _ _)
  have several := ascends_two.behind long (by
    intro v w hv hw hb xs ys
    split_ifs <;> exact ofNat_cons_lt_cons (by omega) (by omega) _ _)
  have all := ascends_one.behind several (by
    intro v w hv hw hb xs ys
    split_ifs <;> exact ofNat_cons_lt_cons (by omega) (by omega) _ _)
  exact all a.val.toNat b.val.toNat h below xs ys

theorem flatMap_utf8EncodeChar_lt {as bs : List Char} (h : as < bs) :
    as.flatMap String.utf8EncodeChar < bs.flatMap String.utf8EncodeChar := by
  induction as generalizing bs with
  | nil =>
    cases bs with
    | nil => exact absurd h (List.lt_irrefl [])
    | cons b bs =>
      obtain ⟨byte, rest, encoded⟩ := List.exists_cons_of_ne_nil (String.utf8EncodeChar_ne_nil (c := b))
      rw [List.flatMap_cons, encoded]
      exact List.nil_lt_cons _ _
  | cons a as ih =>
    cases bs with
    | nil => exact absurd h (List.not_lt_nil _)
    | cons b bs =>
      rw [List.flatMap_cons, List.flatMap_cons]
      rcases List.cons_lt_cons_iff.1 h with less | ⟨rfl, rest⟩
      · exact utf8EncodeChar_append_lt less _ _
      · exact List.append_left_lt (ih rest)

/-- The order of texts is the order of their bytes. -/
theorem lt_iff_bytes_lt (a b : String) : a < b ↔ bytes a < bytes b := by
  have forth {a b : String} (h : a < b) : bytes a < bytes b := by
    rw [bytes_eq_flatMap, bytes_eq_flatMap]
    exact flatMap_utf8EncodeChar_lt (String.lt_iff.1 h)
  refine ⟨forth, ?_⟩
  intro less
  rcases lt_trichotomy a b with h | rfl | h
  · exact h
  · exact absurd less (List.lt_irrefl _)
  · exact absurd less (List.lt_asymm (forth h))

/-! ### The case of letters -/

/-- The second text is the first with the ASCII case of any of its letters changed. -/
def Recased (text other : String) : Prop :=
  List.Forall₂ (fun c x => x = c ∨ x = c.toUpper ∨ x = c.toLower) text.toList other.toList

theorem Recased.map_toUpper_eq {text other : String} (h : Recased text other) :
    other.map Char.toUpper = text.map Char.toUpper := by
  rw [← String.toList_inj, String.toList_map, String.toList_map]
  unfold Recased at h
  generalize text.toList = cs at h
  generalize other.toList = xs at h
  induction h with
  | nil => rfl
  | cons same _ ih =>
    rw [List.map_cons, List.map_cons, ih]
    rcases same with rfl | rfl | rfl
    · rfl
    · rw [Char.toUpper_toUpper_eq_toUpper]
    · rw [Char.toUpper_toLower_eq_toUpper]

theorem eqIgnoringAsciiCase_iff_map_toUpper (a b : String) :
    eqIgnoringAsciiCase a b = true ↔ a.map Char.toUpper = b.map Char.toUpper := by
  have lower (text : String) : (text.map Char.toUpper).map Char.toLower = text.map Char.toLower := by
    rw [← String.toList_inj]
    simp [Char.toLower_toUpper_eq_toLower]
  have upper (text : String) : (text.map Char.toLower).map Char.toUpper = text.map Char.toUpper := by
    rw [← String.toList_inj]
    simp [Char.toUpper_toLower_eq_toUpper]
  rw [eqIgnoringAsciiCase_iff]
  constructor
  · intro same
    rw [← upper a, ← upper b, same]
  · intro same
    rw [← lower a, ← lower b, same]

theorem toNat_lt_of_toUpper {c : Char} (h : c.toUpper.toNat < 128) : c.toNat < 128 := by
  rw [← toNat_toLower_lt_iff, ← Char.toLower_toUpper_eq_toLower, toNat_toLower_lt_iff]
  exact h

end Text

namespace Dialect

/-! ### The search -/

def Ascending (table : Array String) : Prop :=
  table.toList.Pairwise fun a b => Text.bytes a < Text.bytes b

theorem Ascending.lt {table : Array String} (h : Ascending table) {i j : Nat} {a b : String}
    (hi : table[i]? = some a) (hj : table[j]? = some b) (less : i < j) : a < b := by
  rw [← Array.getElem?_toList] at hi hj
  obtain ⟨bi, rfl⟩ := List.getElem?_eq_some_iff.1 hi
  obtain ⟨bj, rfl⟩ := List.getElem?_eq_some_iff.1 hj
  exact (Text.lt_iff_bytes_lt _ _).2 (List.pairwise_iff_getElem.1 h i j bi bj less)

/-- The search finds what stands between its bounds. -/
theorem searchSorted_eq_true_iff {table : Array String} (h : Ascending table) {word : String}
    {low high : Nat} (within : high ≤ table.size) :
    searchSorted table word low high = true ↔
      ∃ i, low ≤ i ∧ i < high ∧ table[i]? = some word := by
  fun_induction searchSorted table word low high with
  | case1 low high bounds middle missing =>
    have outside := Array.getElem?_eq_none_iff.1 missing
    omega
  | case2 low high bounds middle found =>
    exact iff_of_true rfl ⟨middle, by omega, by omega, found⟩
  | case3 low high bounds middle entry found other below ih =>
    -- an entry up to the middle is no greater than the middle, and that is less than the word
    rw [ih within]
    constructor
    · rintro ⟨i, hl, hh, at_i⟩
      exact ⟨i, by omega, hh, at_i⟩
    · rintro ⟨i, hl, hh, at_i⟩
      rcases Nat.lt_trichotomy i middle with less | rfl | greater
      · exact absurd below (String.lt_asymm (h.lt at_i found less))
      · exact absurd (Option.some.inj (found.symm.trans at_i)) other
      · exact ⟨i, greater, hh, at_i⟩
  | case4 low high bounds middle entry found other above ih =>
    rw [ih (by omega)]
    constructor
    · rintro ⟨i, hl, hh, at_i⟩
      exact ⟨i, hl, by omega, at_i⟩
    · rintro ⟨i, hl, hh, at_i⟩
      rcases Nat.lt_trichotomy i middle with less | rfl | greater
      · exact ⟨i, hl, less, at_i⟩
      · exact absurd (Option.some.inj (found.symm.trans at_i)) other
      · exact absurd (h.lt found at_i greater) above
  | case5 low high bounds =>
    refine iff_of_false Bool.false_ne_true ?_
    rintro ⟨i, hl, hh, -⟩
    omega

theorem searchSorted_iff_mem {table : Array String} (h : Ascending table) (word : String) :
    searchSorted table word 0 table.size = true ↔ word ∈ table := by
  rw [searchSorted_eq_true_iff h (Nat.le_refl _), Array.mem_iff_getElem?]
  constructor
  · rintro ⟨i, -, -, at_i⟩
    exact ⟨i, at_i⟩
  · rintro ⟨i, at_i⟩
    obtain ⟨bound, -⟩ := Array.getElem?_eq_some_iff.1 at_i
    exact ⟨i, Nat.zero_le i, bound, at_i⟩

/-! ### The tables -/

theorem ascending_keywords (d : Dialect) : Ascending d.keywords := by
  have neighbours : d.keywords.toList.IsChain (· < ·) := by
    cases d <;> decide +kernel
  exact (List.isChain_iff_pairwise.1 neighbours).imp (Text.lt_iff_bytes_lt _ _).1

/-- The entries are ASCII capitals and signs that have no case. -/
theorem capital_of_mem_keywords {d : Dialect} {keyword : String} (h : keyword ∈ d.keywords) :
    ∀ c ∈ keyword.toList, c.toNat < 128 ∧ c.toUpper = c := by
  have all : (d.keywords.toList.all fun k =>
      k.toList.all fun c => c.toNat < 128 && c.toUpper == c) = true := by
    cases d <;> decide +kernel
  intro c hc
  have one := List.all_eq_true.1 (List.all_eq_true.1 all keyword (Array.mem_toList_iff.2 h)) c hc
  simpa using one

theorem map_toUpper_of_mem_keywords {d : Dialect} {keyword : String} (h : keyword ∈ d.keywords) :
    keyword.map Char.toUpper = keyword := by
  rw [← String.toList_inj, String.toList_map]
  refine (List.map_congr_left ?_).trans (List.map_id _)
  intro c hc
  exact (capital_of_mem_keywords h c hc).2

theorem isReserved_iff_mem (d : Dialect) (word : String) :
    d.isReserved word = true ↔ word.map Char.toUpper ∈ d.keywords :=
  searchSorted_iff_mem d.ascending_keywords _

/-- Halving a table, which ascends in the order of bytes, finds a word exactly if some entry equals it up to
ASCII case. So the case of its letters does not matter, and a word with other characters than ASCII is never
found. -/
theorem isReserved_ignores_ascii_case (d : Dialect) (word : String) :
    Ascending d.keywords ∧
    (d.isReserved word = true ↔
      ∃ keyword ∈ d.keywords, Text.eqIgnoringAsciiCase keyword word = true) ∧
    (∀ other, Text.Recased word other → d.isReserved other = d.isReserved word) ∧
    (∀ c ∈ word.toList, 128 ≤ c.toNat → d.isReserved word = false) := by
  refine ⟨d.ascending_keywords, ?_, ?_, ?_⟩
  · rw [isReserved_iff_mem]
    constructor
    · intro listed
      refine ⟨_, listed, ?_⟩
      rw [Text.eqIgnoringAsciiCase_iff_map_toUpper, map_toUpper_of_mem_keywords listed]
    · rintro ⟨keyword, listed, same⟩
      rw [Text.eqIgnoringAsciiCase_iff_map_toUpper, map_toUpper_of_mem_keywords listed] at same
      exact same ▸ listed
  · intro other recased
    rw [Bool.eq_iff_iff, isReserved_iff_mem, isReserved_iff_mem, recased.map_toUpper_eq]
  · intro c hc beyond
    rw [Bool.eq_false_iff]
    intro reserved
    have capital : c.toUpper ∈ (word.map Char.toUpper).toList := by
      rw [String.toList_map]
      exact List.mem_map_of_mem hc
    have ascii := (capital_of_mem_keywords ((isReserved_iff_mem d word).1 reserved) _ capital).1
    exact absurd (Text.toNat_lt_of_toUpper ascii) (by omega)

/-- The long s is a letter whose capital is `S`, but not within ASCII. -/
theorem isReserved_ignores_ascii_case_long_s :
    postgreSql.isReserved "seLEct" = true ∧ Text.Recased "seLEct" "Select" ∧
      postgreSql.isReserved "Select" = true ∧ postgreSql.isReserved "\u017Felect" = false := by
  have listed : "SELECT" ∈ postgreSql.keywords := by decide +kernel
  have same : Text.eqIgnoringAsciiCase "SELECT" "seLEct" = true := by
    rw [Text.eqIgnoringAsciiCase_iff, ← String.toList_inj, String.toList_map, String.toList_map]
    decide
  have recased : Text.Recased "seLEct" "Select" := by
    unfold Text.Recased
    decide
  have reserved := (isReserved_ignores_ascii_case postgreSql "seLEct").2.1.2 ⟨_, listed, same⟩
  refine ⟨reserved, recased, ?_, ?_⟩
  · exact ((isReserved_ignores_ascii_case postgreSql "seLEct").2.2.1 _ recased).trans reserved
  · exact (isReserved_ignores_ascii_case postgreSql "\u017Felect").2.2.2 '\u017F' (by decide) (by decide)

end Dialect

end LayeredSql
