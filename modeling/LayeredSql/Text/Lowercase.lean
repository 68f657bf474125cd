import LayeredSql.Text.CaseTable

/-! # Lowercase form of a text

Full Unicode lowercasing of a whole text. It is character by character, except for the capital
sigma, whose form depends on whether it ends a word, and for the dotted capital I, which becomes two
characters. -/

namespace LayeredSql.Text

/-- The lowercase form of one character outside any context. The runs are ascending, so the first
that does not end before `c` is the only one that can hold it. -/
def lowerChar (c : Char) : Char :=
  match lowerRuns.find? fun run => c.toNat ≤ run.last with
  | some run => ((run.lower? c.toNat).map Char.ofNat).getD c
  | none => c

/-- Whether the first character that casing does not look through is a cased one. -/
def meetsCased (cs : List Char) : Bool :=
  match cs.dropWhile isCaseIgnorable with
  | c :: _ => isCased c
  | [] => false

/-- A capital sigma ends a word when a letter stands before it and none after it. -/
def isFinalSigma (before after : List Char) : Bool := meetsCased before && !meetsCased after

/-- The lowercase form of `cs`, where `before` holds the characters in front of `cs`, nearest
first. -/
def lowerFrom (before : List Char) : List Char → List Char
  | [] => []
  | c :: rest =>
    let lowered :=
      if c = '\u03A3' then [if isFinalSigma before rest then '\u03C2' else '\u03C3']
      else if c = '\u0130' then ['i', '\u0307']
      else [lowerChar c]
    lowered ++ lowerFrom (c :: before) rest

def lowercase (s : String) : String := String.ofList (lowerFrom [] s.toList)

end LayeredSql.Text
