import MfQuery.Cpp.Formula
import MfQuery.Program.AggregateGuard
import MfQuery.Spelling.Written

/-!
# HAVING conditions

A HAVING condition is a formula over aggregates and integer constants. In SQL
all comparisons have one precedence, `/` is exact division, a quotient by zero
is unknown and the connectives are those of three-valued logic. C++ computes
with integers of two widths and reads `=` as an assignment. The exact
evaluation follows C++ as long as both languages agree: it is undefined where
an assignment is executed, a quotient is truncated or a result does not fit.
-/

namespace MfQuery

open Text

/-! ## Written conditions -/

/-- Operators of a HAVING condition. -/
inductive HavingOp
  | mul
  | div
  | add
  | sub
  | lt
  | gt
  | le
  | ge
  | eq
  | ne
  | and
  | or
  deriving DecidableEq, Repr

namespace HavingOp

/-- The operator as written. -/
def text : HavingOp → Text
  | mul => "*"
  | div => "/"
  | add => "+"
  | sub => "-"
  | lt => "<"
  | gt => ">"
  | le => "<="
  | ge => ">="
  | eq => "="
  | ne => "!="
  | and => "and"
  | or => "or"

/-- The C++ operator of the same spelling. -/
def binOp : HavingOp → Cpp.BinOp
  | mul => .mul
  | div => .div
  | add => .add
  | sub => .sub
  | lt => .lt
  | gt => .gt
  | le => .le
  | ge => .ge
  | eq => .assign
  | ne => .ne
  | and => .and
  | or => .or

/-- Rank of an operator in the SQL precedence table; larger binds tighter. -/
def sqlRank : HavingOp → Nat
  | mul | div => 5
  | add | sub => 4
  | lt | gt | le | ge | eq | ne => 3
  | and => 2
  | or => 1

/-- In SQL all operators group from the left. -/
def sqlBinds (waiting next : HavingOp) : Bool := decide (next.sqlRank ≤ waiting.sqlRank)

/-- The C++ table on the operators of the same spelling. -/
def cppBinds (waiting next : HavingOp) : Bool := waiting.binOp.binds next.binOp

end HavingOp

/-- Operands of a HAVING condition. -/
inductive HavingLeaf
  | aggregate (letterCase : LetterCase) (term : AggregateTerm)
  | constant (value : Int)
  deriving DecidableEq, Repr

/-- The operand as written. -/
def HavingLeaf.text : HavingLeaf → Text
  | aggregate letterCase term => term.text letterCase
  | constant value => integerText value

/-- A HAVING condition. -/
abbrev HavingFormula := Precedence.Formula HavingOp HavingLeaf

/-- The condition as written, its tokens separated by single spaces. -/
def HavingFormula.text (formula : HavingFormula) : Text :=
  joinWith ' ' (formula.pieces HavingLeaf.text HavingOp.text "(" ")")

/-! ## Meaning in SQL -/

/-- Values of SQL; an unknown value is `none`. -/
inductive SqlVal
  | num (value : ℚ)
  | text (content : Text)
  deriving DecidableEq

namespace SqlVal

/-- Truth values are numbers. -/
def ofBool (value : Bool) : SqlVal := .num (if value then 1 else 0)

/-- The value as a condition. -/
def truth : Option SqlVal → Option Bool
  | some (num value) => some (decide (value ≠ 0))
  | _ => none

end SqlVal

/-- Conjunction in three-valued logic. -/
def sqlAnd : Option Bool → Option Bool → Option Bool
  | some false, _ => some false
  | _, some false => some false
  | some true, some true => some true
  | _, _ => none

/-- Disjunction in three-valued logic. -/
def sqlOr : Option Bool → Option Bool → Option Bool
  | some true, _ => some true
  | _, some true => some true
  | some false, some false => some false
  | _, _ => none

namespace HavingOp

/-- Comparison of two values of an ordered type. -/
def compare
    {Ordered : Type}
    [DecidableEq Ordered]
    [LT Ordered]
    [DecidableLT Ordered]
    (left right : Ordered) : HavingOp → Option Bool
  | lt => some (decide (left < right))
  | gt => some (decide (right < left))
  | le => some (!decide (right < left))
  | ge => some (!decide (left < right))
  | eq => some (decide (left = right))
  | ne => some (decide (left ≠ right))
  | _ => none

/-- Arithmetic of SQL; a quotient by zero is unknown. -/
def sqlArithmetic (left right : ℚ) : HavingOp → Option ℚ
  | mul => some (left * right)
  | div => if right = 0 then none else some (left / right)
  | add => some (left + right)
  | sub => some (left - right)
  | _ => none

/-- The meaning of a comparison or an arithmetic operator in SQL. -/
def sqlStrict (operator : HavingOp) : Option SqlVal → Option SqlVal → Option SqlVal
  | some (.num left), some (.num right) =>
      match operator.compare left right with
      | some result => some (.ofBool result)
      | none => (operator.sqlArithmetic left right).map .num
  | some (.text left), some (.text right) => (operator.compare left right).map .ofBool
  | _, _ => none

/-- The meaning of an operator in SQL. -/
def sqlNode (operator : HavingOp) (left right : Option SqlVal) : Option SqlVal :=
  match operator with
  | .and => (sqlAnd (SqlVal.truth left) (SqlVal.truth right)).map .ofBool
  | .or => (sqlOr (SqlVal.truth left) (SqlVal.truth right)).map .ofBool
  | _ => operator.sqlStrict left right

end HavingOp

/-! ## Exact evaluation -/

/-- Values on which both languages agree: integers of two widths and texts. -/
inductive Exact
  | num (wide : Bool) (value : Int)
  | text (content : Text)
  deriving DecidableEq, Repr

namespace Exact

/-- The value in SQL. -/
def toSql : Exact → SqlVal
  | num _ value => .num value
  | text content => .text content

/-- A truth value as an `int`. -/
def ofBool (value : Bool) : Exact := .num false (if value then 1 else 0)

/-- The value as a condition. -/
def truth : Exact → Option Bool
  | num _ value => some (decide (value ≠ 0))
  | text _ => none

end Exact

/-- The integer fits the width. -/
def fitsWidth (wide : Bool) (value : Int) : Bool :=
  if wide then decide (-2 ^ 63 ≤ value ∧ value < 2 ^ 63)
  else decide (-2 ^ 31 ≤ value ∧ value < 2 ^ 31)

namespace HavingOp

/-- Integer arithmetic where it is exact: a quotient has no remainder. -/
def exactArithmetic (left right : Int) : HavingOp → Option Int
  | mul => some (left * right)
  | div => if right ≠ 0 ∧ left % right = 0 then some (left / right) else none
  | add => some (left + right)
  | sub => some (left - right)
  | _ => none

/-- A comparison, or an arithmetic operator whose result fits the wider of the
operands' widths. -/
def exactStrict (operator : HavingOp) : Option Exact → Option Exact → Option Exact
  | some (.num leftWide left), some (.num rightWide right) =>
      match operator.compare left right with
      | some result => some (.ofBool result)
      | none => ((operator.exactArithmetic left right).filter
          (fitsWidth (leftWide || rightWide))).map (.num (leftWide || rightWide))
  | some (.text left), some (.text right) => (operator.compare left right).map .ofBool
  | _, _ => none

/-- One operator: `and` and `or` evaluate their right operand only when needed,
and an executed `=` is an assignment. -/
def exactNode (operator : HavingOp) (left right : Option Exact) : Option Exact :=
  match operator with
  | .and => (left.bind Exact.truth).bind fun leftTruth =>
      if leftTruth then (right.bind Exact.truth).map .ofBool else some (.ofBool false)
  | .or => (left.bind Exact.truth).bind fun leftTruth =>
      if leftTruth then some (.ofBool true) else (right.bind Exact.truth).map .ofBool
  | .eq => none
  | _ => operator.exactStrict left right

end HavingOp

/-! ## Values at a position -/

/-- The aggregate stored in a record: an average is read through `value()`. -/
def AggregateTerm.stored
    (letterCase : LetterCase)
    (term : AggregateTerm)
    (record : Record) : Option Exact :=
  match (term.aggregate letterCase).isAvg, record (term.aggregate letterCase).toVar with
  | true, .avg count sum => some (.num true (Value.avg count sum).average.asInt)
  | true, .zero => some (.num true 0)
  | false, .int value => some (.num true value)
  | false, .zero => some (.num true 0)
  | false, .str text => some (.text text)
  | _, _ => none

/-- The aggregate at a position of its group. -/
def AggregateTerm.valueAt
    (letterCase : LetterCase)
    (term : AggregateTerm)
    (group : Nat → List Record)
    (pos : Nat) : Option Exact :=
  (group term.group)[pos]?.bind (term.stored letterCase)

/-- An operand in SQL. -/
def HavingLeaf.sqlValue (group : Nat → List Record) (pos : Nat) : HavingLeaf → Option SqlVal
  | aggregate letterCase term => (term.valueAt letterCase group pos).map Exact.toSql
  | constant value => some (.num value)

/-- An operand in the exact evaluation: constants have to be C++ literals. -/
def HavingLeaf.exactValue (group : Nat → List Record) (pos : Nat) : HavingLeaf → Option Exact
  | aggregate letterCase term => term.valueAt letterCase group pos
  | constant value =>
      if value.natAbs < 2 ^ 63 then some (.num (decide (2 ^ 31 ≤ value.natAbs)) value) else none

/-- The truth value of a condition in SQL on the aggregates at a position; an
unknown condition does not hold. -/
def HavingFormula.sqlHolds
    (formula : HavingFormula)
    (group : Nat → List Record)
    (pos : Nat) : Bool :=
  (SqlVal.truth (formula.fold (HavingLeaf.sqlValue group pos) HavingOp.sqlNode
    HavingOp.sqlBinds [])).getD false

/-- The exact value of a condition at a position. -/
def HavingFormula.exact
    (formula : HavingFormula)
    (group : Nat → List Record)
    (pos : Nat) : Option Exact :=
  formula.fold (HavingLeaf.exactValue group pos) HavingOp.exactNode HavingOp.sqlBinds []

end MfQuery
