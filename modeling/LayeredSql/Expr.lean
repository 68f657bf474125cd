import LayeredSql.Fragment.Closed
import LayeredSql.Logged

/-! # Expressions

An expression is SQL text for one dialect that is known to be valid or known to be refused, or text
handed over from elsewhere about which nothing is known. Only the first kind can be spliced into a
statement, and the type says why that is safe: valid text passes the lexical check of its
dialect. -/

namespace LayeredSql

/-- SQL text written for a dialect. -/
structure NativeExpr where
  dialect : Dialect
  text : String
  valid : Bool
  /-- Valid text is lexically closed. -/
  closed : valid = true → Fragment.problem dialect text = none
deriving DecidableEq

inductive Expr where
  | native (expr : NativeExpr)
  | foreign (origin text : String) (valid : Bool)
deriving DecidableEq

namespace Expr

def text : Expr → String
  | native e => e.text
  | foreign _ text _ => text

def isValid : Expr → Bool
  | native e => e.valid
  | foreign _ _ valid => valid

/-- The dialect of a native expression. -/
def dialect? : Expr → Option Dialect
  | native e => some e.dialect
  | foreign .. => none

/-- Where a foreign expression comes from. -/
def origin? : Expr → Option String
  | native _ => none
  | foreign origin .. => some origin

/-- Whether statements of dialect `d` take the expression: a valid native one of that dialect. -/
def supportedBy (d : Dialect) : Expr → Bool
  | native e => e.dialect = d && e.valid
  | foreign .. => false

/-- Reference to a column. An illegal name is kept as it is and is not valid. -/
def ofColumn (d : Dialect) (name : String) : Expr :=
  if h : d.isLegal name then .native ⟨d, d.quote name, true, fun _ => Fragment.problem_quote h⟩
  else .native ⟨d, name, false, nofun⟩

/-- A fragment of SQL, without the blanks at its ends. A refused fragment is kept as it is and is
not valid. -/
def ofFragment (d : Dialect) (sql : String) : Expr :=
  if h : Fragment.problem d sql = none then
    .native ⟨d, Text.trim sql, true, fun _ => (Fragment.problem_trim_eq_none_iff d sql).2 h⟩
  else .native ⟨d, sql, false, nofun⟩

/-- Makes a column reference and reports an illegal name. -/
def column (d : Dialect) (name : String) : Logged Expr :=
  ⟨ofColumn d name, if d.isLegal name then [] else [.illegalIdentifier d name]⟩

/-- Makes an expression from a fragment and reports why it is refused. -/
def fragment (d : Dialect) (sql : String) : Logged Expr :=
  ⟨ofFragment d sql,
    match Fragment.problem d sql with
    | none => []
    | some problem => [.refusedFragment d problem]⟩

/-- Supported text passes the lexical check. -/
theorem problem_text_of_supportedBy {d : Dialect} {e : Expr} (h : e.supportedBy d = true) :
    Fragment.problem d e.text = none := by
  cases e with
  | native e =>
    simp only [supportedBy, Bool.and_eq_true, decide_eq_true_eq] at h
    exact h.1 ▸ e.closed h.2
  | foreign => cases h

theorem ofColumn_of_isLegal {d : Dialect} {name : String} (h : d.isLegal name = true) :
    (ofColumn d name).text = d.quote name ∧ (ofColumn d name).isValid = true ∧
      (ofColumn d name).supportedBy d = true := by
  simp [ofColumn, h, text, isValid, supportedBy]

end Expr

end LayeredSql
