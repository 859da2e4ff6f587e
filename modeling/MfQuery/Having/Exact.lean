import MfQuery.Having.Meaning

/-!
# Exact evaluation agrees with both languages

Where the exact evaluation of an operator is defined, SQL gives the same value
and C++ computes it without writing anything.
-/

namespace MfQuery

open Text

/-! ## SQL -/

/-- SQL gives the exact value. -/
def SqlGives (exact : Option Exact) (sql : Option SqlVal) : Prop :=
  ∀ value, exact = some value → sql = some value.toSql

namespace Exact

theorem toSql_ofBool (value : Bool) : (ofBool value).toSql = SqlVal.ofBool value := by
  cases value <;> simp [ofBool, toSql, SqlVal.ofBool]

theorem truth_toSql
    {value : Exact}
    {truth : Bool}
    (isTruth : value.truth = some truth) :
    SqlVal.truth (some value.toSql) = some truth := by
  cases value with
  | num wide value => simpa [Exact.truth, toSql, SqlVal.truth] using isTruth
  | text content => cases isTruth

end Exact

namespace HavingOp

theorem compare_cast
    (operator : HavingOp)
    (left right : Int) :
    operator.compare (left : ℚ) (right : ℚ) = operator.compare left right := by
  cases operator <;> simp [compare]

theorem sqlArithmetic_cast
    {operator : HavingOp}
    {left right value : Int}
    (exact : operator.exactArithmetic left right = some value) :
    operator.sqlArithmetic left right = some (value : ℚ) := by
  cases operator with
  | mul | add | sub =>
      cases exact
      simp [sqlArithmetic]
  | div =>
      simp only [exactArithmetic, Option.ite_none_right_eq_some, Option.some.injEq] at exact
      obtain ⟨⟨nonzero, divides⟩, rfl⟩ := exact
      have nonzeroCast : (right : ℚ) ≠ 0 := Int.cast_ne_zero.mpr nonzero
      rw [sqlArithmetic, if_neg nonzeroCast,
        Int.cast_div (Int.dvd_of_emod_eq_zero divides) nonzeroCast]
  | lt | gt | le | ge | eq | ne | and | or => cases exact

theorem sqlGives_strict
    (operator : HavingOp)
    {left right : Option Exact}
    {leftSql rightSql : Option SqlVal}
    (leftGiven : SqlGives left leftSql)
    (rightGiven : SqlGives right rightSql) :
    SqlGives (operator.exactStrict left right) (operator.sqlStrict leftSql rightSql) := by
  intro value exact
  unfold exactStrict at exact
  split at exact
  next leftWide leftValue rightWide rightValue =>
      rw [leftGiven _ rfl, rightGiven _ rfl]
      simp only [sqlStrict, Exact.toSql, compare_cast]
      split at exact
      next result compared =>
          cases exact
          simp only [← Exact.toSql_ofBool]
          rfl
      next compared =>
          obtain ⟨result, isResult, rfl⟩ := Option.map_eq_some_iff.mp exact
          obtain ⟨computed, -⟩ := Option.filter_eq_some_iff.mp isResult
          simp only [sqlArithmetic_cast computed]
          rfl
  next leftText rightText =>
      obtain ⟨result, compared, rfl⟩ := Option.map_eq_some_iff.mp exact
      rw [leftGiven _ rfl, rightGiven _ rfl, Exact.toSql_ofBool]
      simp only [sqlStrict, Exact.toSql, compared, Option.map_some]
  next => cases exact

/-- The truth value of an operand. -/
theorem truth_eq_of_sqlGives
    {operand : Option Exact}
    {sql : Option SqlVal}
    (given : SqlGives operand sql)
    {truth : Bool}
    (isTruth : operand.bind Exact.truth = some truth) :
    SqlVal.truth sql = some truth := by
  obtain ⟨inner, isInner, innerTruth⟩ := Option.bind_eq_some_iff.mp isTruth
  rw [given inner isInner]
  exact Exact.truth_toSql innerTruth

/-- An exact operator is the one of SQL. -/
theorem sqlGives_node
    (operator : HavingOp)
    {left right : Option Exact}
    {leftSql rightSql : Option SqlVal}
    (leftGiven : SqlGives left leftSql)
    (rightGiven : SqlGives right rightSql) :
    SqlGives (operator.exactNode left right) (operator.sqlNode leftSql rightSql) := by
  intro value exact
  cases operator with
  | and =>
      obtain ⟨leftTruth, isLeft, rest⟩ := Option.bind_eq_some_iff.mp exact
      have leftSame := truth_eq_of_sqlGives leftGiven isLeft
      cases leftTruth with
      | false =>
          cases rest
          simp [sqlNode, leftSame, sqlAnd, Exact.toSql_ofBool]
      | true =>
          obtain ⟨rightTruth, isRight, rfl⟩ := Option.map_eq_some_iff.mp rest
          have rightSame := truth_eq_of_sqlGives rightGiven isRight
          cases rightTruth <;> simp [sqlNode, leftSame, rightSame, sqlAnd, Exact.toSql_ofBool]
  | or =>
      obtain ⟨leftTruth, isLeft, rest⟩ := Option.bind_eq_some_iff.mp exact
      have leftSame := truth_eq_of_sqlGives leftGiven isLeft
      cases leftTruth with
      | true =>
          cases rest
          simp [sqlNode, leftSame, sqlOr, Exact.toSql_ofBool]
      | false =>
          obtain ⟨rightTruth, isRight, rfl⟩ := Option.map_eq_some_iff.mp rest
          have rightSame := truth_eq_of_sqlGives rightGiven isRight
          cases rightTruth <;> simp [sqlNode, leftSame, rightSame, sqlOr, Exact.toSql_ofBool]
  | eq => cases exact
  | mul | div | add | sub | lt | gt | le | ge | ne =>
      simp only [exactNode] at exact
      exact sqlGives_strict _ leftGiven rightGiven value exact

end HavingOp

/-! ## C++ -/

/-- A C++ value is the exact one. -/
def Val.Matches (val : Val) : Exact → Prop
  | .num wide value => val.asNum = some (wide, value) ∧ val.truth = some (decide (value ≠ 0))
  | .text content => val.asNum = none ∧ val.asText = some content

/-- C++ computes the exact value and leaves the groups as they are. -/
def Cpp.Computes
    (env : Env)
    (group : Nat → List Record)
    (expr : Cpp.Expr)
    (exact : Option Exact) : Prop :=
  ∀ value, exact = some value →
    ∃ val, Cpp.eval env expr group = some (val, group) ∧ val.Matches value

theorem Val.matches_ofBool (value : Bool) : (Val.bool value).Matches (.ofBool value) := by
  cases value <;> exact ⟨rfl, rfl⟩

theorem Val.Matches.truth_eq
    {val : Val}
    {value : Exact}
    (matching : val.Matches value)
    {truth : Bool}
    (isTruth : value.truth = some truth) :
    val.truth = some truth := by
  cases value with
  | num wide value => exact matching.2.trans isTruth
  | text content => cases isTruth

namespace HavingOp

theorem compareNum_binOp
    {operator : HavingOp}
    (noAssignment : operator ≠ .eq)
    (left right : Int) :
    operator.binOp.compareNum left right = operator.compare left right := by
  cases operator with
  | eq => exact (noAssignment rfl).elim
  | le => simp only [binOp, Cpp.BinOp.compareNum, compare, ← decide_not, Int.not_lt]
  | ge => simp only [binOp, Cpp.BinOp.compareNum, compare, ← decide_not, Int.not_lt]
  | mul | div | add | sub | lt | gt | ne | and | or => rfl

theorem compareText_binOp
    {operator : HavingOp}
    (noAssignment : operator ≠ .eq)
    (left right : Text) :
    operator.binOp.compareText left right = operator.compare left right := by
  cases operator with
  | eq => exact (noAssignment rfl).elim
  | mul | div | add | sub | lt | gt | le | ge | ne | and | or => rfl

theorem wrapTo_of_fitsWidth
    {wide : Bool}
    {value : Int}
    (fits : fitsWidth wide value = true) :
    wrapTo wide value = value := by
  cases wide with
  | true =>
      simp only [fitsWidth, if_true, decide_eq_true_eq] at fits
      exact wrap64_of_bounds fits.1 fits.2
  | false =>
      simp only [fitsWidth, Bool.false_eq_true, if_false, decide_eq_true_eq] at fits
      exact wrap32_of_bounds fits.1 fits.2

theorem arithmetic_binOp
    {operator : HavingOp}
    {left right value : Int}
    {wide : Bool}
    (exact : operator.exactArithmetic left right = some value)
    (fits : fitsWidth wide value = true) :
    operator.binOp.arithmetic wide left right = some (.num wide value) := by
  have unwrapped := wrapTo_of_fitsWidth fits
  cases operator with
  | mul | add | sub =>
      cases exact
      simp only [binOp, Cpp.BinOp.arithmetic, unwrapped]
  | div =>
      simp only [exactArithmetic, Option.ite_none_right_eq_some, Option.some.injEq] at exact
      obtain ⟨⟨nonzero, divides⟩, rfl⟩ := exact
      rw [binOp, Cpp.BinOp.arithmetic, if_neg nonzero,
        Int.tdiv_eq_ediv_of_dvd (Int.dvd_of_emod_eq_zero divides), unwrapped]
  | lt | gt | le | ge | eq | ne | and | or => cases exact

/-- An operator on matching operands. -/
theorem exists_apply
    {operator : HavingOp}
    (noAssignment : operator ≠ .eq)
    {left right : Exact}
    {leftVal rightVal : Val}
    (leftMatches : leftVal.Matches left)
    (rightMatches : rightVal.Matches right)
    {value : Exact}
    (exact : operator.exactStrict (some left) (some right) = some value) :
    ∃ val, operator.binOp.apply leftVal rightVal = some val ∧ val.Matches value := by
  have noXor : operator.binOp ≠ .xor := by cases operator <;> decide
  unfold exactStrict at exact
  unfold Cpp.BinOp.apply
  split at exact
  next leftWide leftValue rightWide rightValue leftShape rightShape =>
      cases leftShape
      cases rightShape
      split
      next isXor => exact absurd isXor noXor
      next =>
          simp only [leftMatches.1, rightMatches.1, compareNum_binOp noAssignment]
          cases compared : compare leftValue rightValue operator with
          | some result =>
              rw [compared] at exact
              cases exact
              exact ⟨_, rfl, Val.matches_ofBool result⟩
          | none =>
              rw [compared] at exact
              obtain ⟨result, isResult, rfl⟩ := Option.map_eq_some_iff.mp exact
              obtain ⟨computed, fits⟩ := Option.filter_eq_some_iff.mp isResult
              exact ⟨_, arithmetic_binOp computed fits, rfl, rfl⟩
  next leftText rightText leftShape rightShape =>
      cases leftShape
      cases rightShape
      split
      next isXor => exact absurd isXor noXor
      next =>
          obtain ⟨result, compared, rfl⟩ := Option.map_eq_some_iff.mp exact
          simp only [leftMatches.1, leftMatches.2, rightMatches.2, compareText_binOp noAssignment,
            compared, Option.map_some]
          exact ⟨_, rfl, Val.matches_ofBool result⟩
  next => cases exact

/-- Operators that evaluate both operands. -/
theorem eval_strict
    {operator : HavingOp}
    (strict : operator ≠ .and ∧ operator ≠ .or ∧ operator ≠ .eq)
    {env : Env}
    {left right : Cpp.Expr}
    {leftVal rightVal : Val}
    {group : Nat → List Record}
    (leftEval : Cpp.eval env left group = some (leftVal, group))
    (rightEval : Cpp.eval env right group = some (rightVal, group)) :
    Cpp.eval env (.binary operator.binOp left right) group =
      (operator.binOp.apply leftVal rightVal).map (·, group) := by
  obtain ⟨noAnd, noOr, noAssignment⟩ := strict
  cases operator <;> simp_all [binOp, Cpp.eval]

section Node

variable {env : Env} {group : Nat → List Record} {left right : Cpp.Expr}
  {leftExact rightExact : Option Exact}
  (leftComputed : Cpp.Computes env group left leftExact)
  (rightComputed : Cpp.Computes env group right rightExact)
include leftComputed rightComputed

theorem computes_strict
    {operator : HavingOp}
    (strict : operator ≠ .and ∧ operator ≠ .or ∧ operator ≠ .eq) :
    Cpp.Computes env group (.binary operator.binOp left right)
      (operator.exactStrict leftExact rightExact) := by
  intro value exact
  cases leftExact with
  | none => cases exact
  | some leftValue =>
      cases rightExact with
      | none => cases leftValue <;> cases exact
      | some rightValue =>
          obtain ⟨leftVal, leftEval, leftMatches⟩ := leftComputed _ rfl
          obtain ⟨rightVal, rightEval, rightMatches⟩ := rightComputed _ rfl
          obtain ⟨val, applied, valMatches⟩ :=
            exists_apply strict.2.2 leftMatches rightMatches exact
          refine ⟨val, ?_, valMatches⟩
          rw [eval_strict strict leftEval rightEval, applied]
          rfl

omit rightComputed in
/-- The truth value of an operand that is needed. -/
theorem exists_truth
    {truth : Bool}
    (isTruth : leftExact.bind Exact.truth = some truth) :
    ∃ val, Cpp.eval env left group = some (val, group) ∧ val.truth = some truth := by
  obtain ⟨value, exact, valueTruth⟩ := Option.bind_eq_some_iff.mp isTruth
  obtain ⟨val, evaluated, matching⟩ := leftComputed value exact
  exact ⟨val, evaluated, matching.truth_eq valueTruth⟩

/-- An exact operator is computed by C++. -/
theorem computes_node (operator : HavingOp) :
    Cpp.Computes env group (.binary operator.binOp left right)
      (operator.exactNode leftExact rightExact) := by
  intro value exact
  cases operator with
  | and =>
      obtain ⟨leftTruth, isLeft, rest⟩ := Option.bind_eq_some_iff.mp exact
      obtain ⟨leftVal, leftEval, leftSame⟩ := exists_truth leftComputed isLeft
      cases leftTruth with
      | false =>
          cases rest
          refine ⟨.bool false, ?_, Val.matches_ofBool false⟩
          simp [binOp, Cpp.eval, leftEval, leftSame]
      | true =>
          obtain ⟨rightTruth, isRight, rfl⟩ := Option.map_eq_some_iff.mp rest
          obtain ⟨rightVal, rightEval, rightSame⟩ := exists_truth rightComputed isRight
          refine ⟨.bool rightTruth, ?_, Val.matches_ofBool rightTruth⟩
          simp [binOp, Cpp.eval, leftEval, leftSame, rightEval, rightSame]
  | or =>
      obtain ⟨leftTruth, isLeft, rest⟩ := Option.bind_eq_some_iff.mp exact
      obtain ⟨leftVal, leftEval, leftSame⟩ := exists_truth leftComputed isLeft
      cases leftTruth with
      | true =>
          cases rest
          refine ⟨.bool true, ?_, Val.matches_ofBool true⟩
          simp [binOp, Cpp.eval, leftEval, leftSame]
      | false =>
          obtain ⟨rightTruth, isRight, rfl⟩ := Option.map_eq_some_iff.mp rest
          obtain ⟨rightVal, rightEval, rightSame⟩ := exists_truth rightComputed isRight
          refine ⟨.bool rightTruth, ?_, Val.matches_ofBool rightTruth⟩
          simp [binOp, Cpp.eval, leftEval, leftSame, rightEval, rightSame]
  | eq => cases exact
  | mul | div | add | sub | lt | gt | le | ge | ne =>
      simp only [exactNode] at exact
      exact computes_strict leftComputed rightComputed (by decide) value exact

end Node

end HavingOp

end MfQuery
