import LayeredSql.Proofs.ControlCharacters
import Mathlib.Data.List.DropRight

/-!
# What the name of a ranking column tells apart

The base name of a ranking column is the digest of a statement and a name with a separator between them. A
statement can hold the separator itself, in a fragment or in the name of the stored table. The name cannot:
every reached relation has a legal name, and legal names hold no control characters. So the last separator
of the text is the one between the parts, and equal base names have equal parts unless two texts share a
digest.
-/

namespace LayeredSql

namespace Digest

def separator : Char := '\x1E'

/-! ### Reading the parts back -/

/-- What stands in front of the last separator, and what stands behind it. -/
def cutAtLast (cs : List Char) : List Char × List Char :=
  ((cs.rdropWhile fun c => c != separator).dropLast, cs.rtakeWhile fun c => c != separator)

theorem cutAtLast_append {front back : List Char} (h : separator ∉ back) :
    cutAtLast (front ++ separator :: back) = (front, back) := by
  have others : ∀ c ∈ back.reverse, (c != separator) = true := by
    intro c hc
    exact bne_iff_ne.2 fun same => h (same ▸ List.mem_reverse.1 hc)
  have turned : (front ++ separator :: back).reverse = back.reverse ++ separator :: front.reverse := by
    simp
  rw [cutAtLast, List.rdropWhile, List.rtakeWhile, turned, List.dropWhile_append_of_pos others,
    List.takeWhile_append_of_pos others]
  simp

theorem toList_joinParts_pair (source name : String) :
    (joinParts [source, name]).toList = source.toList ++ separator :: name.toList := by
  rw [joinParts, String.toList_intercalate]
  simp [separator]

theorem joinParts_pair_inj {name name' : String} (h : Lacks separator name)
    (h' : Lacks separator name') (source source' : String) :
    joinParts [source, name] = joinParts [source', name'] ↔ source = source' ∧ name = name' := by
  constructor
  · intro same
    have cuts := congrArg (fun text : String => cutAtLast text.toList) same
    simp only [toList_joinParts_pair] at cuts
    rw [cutAtLast_append h, cutAtLast_append h', Prod.mk.injEq, String.toList_inj,
      String.toList_inj] at cuts
    exact cuts
  · rintro ⟨rfl, rfl⟩
    rfl

-- without the condition on the name, a separator can move from one part to the other
example : joinParts ["a\x1Eb", "c"] = joinParts ["a", "b\x1Ec"] := by decide

/-! ### Hexadecimal digits -/

theorem digitChar_inj {m n : Nat} (hm : m < 16) (hn : n < 16) (h : Nat.digitChar m = Nat.digitChar n) :
    m = n := by
  have all : ∀ m < 16, ∀ n < 16, Nat.digitChar m = Nat.digitChar n → m = n := by decide
  exact all m hm n hn h

theorem mod_eq_of_hexDigits_eq {n v w : Nat} (h : hexDigits n v = hexDigits n w) :
    v % 16 ^ n = w % 16 ^ n := by
  induction n generalizing v w with
  | zero => simp [Nat.mod_one]
  | succ n ih =>
    rw [hexDigits, hexDigits] at h
    obtain ⟨front, last⟩ := List.append_inj' h rfl
    have digit : v % 16 = w % 16 :=
      digitChar_inj (Nat.mod_lt v (by decide)) (Nat.mod_lt w (by decide)) (List.singleton_inj.1 last)
    rw [Nat.pow_succ', Nat.mod_mul, Nat.mod_mul, digit, ih front]

theorem hex_injective : Function.Injective hex := by
  intro a b same
  have digits : hexDigits 16 a.toNat = hexDigits 16 b.toNat := by
    rw [← String.toList_ofList (l := hexDigits 16 a.toNat), ← String.toList_ofList (l := hexDigits 16 b.toNat)]
    exact congrArg String.toList same
  have room : (2 : Nat) ^ 64 = 16 ^ 16 := by decide
  have values := mod_eq_of_hexDigits_eq digits
  rw [← room, Nat.mod_eq_of_lt a.toNat_lt, Nat.mod_eq_of_lt b.toNat_lt] at values
  exact UInt64.toNat_inj.1 values

/-- Two texts with the same digest. -/
structure Collision (a b : String) : Prop where
  ne : a ≠ b
  digest_eq : ofText a = ofText b

end Digest

/-! ### Base names -/

theorem Query.rankingBase_eq_iff (source name source' name' : String) :
    rankingBase source name = rankingBase source' name' ↔
      Digest.ofParts [source, name] = Digest.ofParts [source', name'] := by
  rw [rankingBase, rankingBase, String.append_right_inj]
  exact Digest.hex_injective.eq_iff

namespace Relation

/-- A deduplication of a reached relation asks for a ranking column: for the statement and the name of the
relation. -/
inductive RankingCall (u : Deduplication) : String → String → Prop
  | intro {d : Dialect} {s : TableSource} {ops : List Operation} {r t : Relation}
      (reached : Reached d s ops r) (accepted : r.apply (.deduplicate u) = .ok t) :
      RankingCall u r.sql r.name

theorem RankingCall.lacks_separator {u : Deduplication} {source name : String}
    (h : RankingCall u source name) : Lacks Digest.separator name := by
  obtain ⟨reached, -⟩ := h
  exact lacks_of_isLegal (by decide) reached.isLegal_name

/-- Two calls digest the same text exactly if they agree in the statement and in the name. The digits show
the whole digest, so calls that differ share a base name only where two texts share a digest. -/
theorem RankingCall.digested_text_determines_call {u u' : Deduplication}
    {source source' name name' : String} (h : RankingCall u source name)
    (h' : RankingCall u' source' name') :
    (Digest.joinParts [source, name] = Digest.joinParts [source', name'] ↔
      source = source' ∧ name = name') ∧
    Function.Injective Digest.hex ∧
    (Query.rankingBase source name = Query.rankingBase source' name' ↔
      Digest.ofParts [source, name] = Digest.ofParts [source', name']) ∧
    (Query.rankingBase source name = Query.rankingBase source' name' →
      ¬(source = source' ∧ name = name') →
      Digest.Collision (Digest.joinParts [source, name]) (Digest.joinParts [source', name'])) := by
  have texts := Digest.joinParts_pair_inj h.lacks_separator h'.lacks_separator source source'
  have names := Query.rankingBase_eq_iff source name source' name'
  refine ⟨texts, Digest.hex_injective, names, ?_⟩
  intro same differ
  exact ⟨mt texts.1 differ, names.1 same⟩

/-- Two relations on one table with the separator in its name: their statements are the same, and their
names differ. -/
theorem RankingCall.digested_text_determines_call_separator : ∃ u source,
    RankingCall u source "n" ∧ RankingCall u source "m" ∧ Digest.separator ∈ source.toList ∧
      Digest.joinParts [source, "n"] ≠ Digest.joinParts [source, "m"] ∧
      Query.rankingBase source "n" ≠ Query.rankingBase source "m" := by
  let source := "SELECT a AS a FROM d.\"t\x1Eu\""
  let u : Deduplication := ⟨.ofList [("a", .ofColumn .postgreSql "a")], [.ofColumn .postgreSql "a"], []⟩
  have call (name : String)
      (made : ofTable .postgreSql ⟨"", "d", "t\x1Eu", name, ["a"]⟩ =
        .ok ⟨.postgreSql, "t\x1Eu", name, ["a"], source, 0, .base⟩) : RankingCall u source name := by
    have accepted : (Operation.deduplicate u).acceptable .postgreSql = true := by decide +kernel
    exact .intro (Reached.nil_iff.2 made) ((apply_eq_ok_iff _ _ _).2 ⟨accepted, rfl⟩)
  have first := call "n" (by decide +kernel)
  have second := call "m" (by decide +kernel)
  obtain ⟨texts, -, names, -⟩ := first.digested_text_determines_call second
  refine ⟨u, source, first, second, by decide, ?_, ?_⟩
  · intro same
    exact absurd (texts.1 same).2 (by decide)
  · intro same
    exact absurd (names.1 same) (by decide +kernel)

end Relation

end LayeredSql
