import MfQuery.Cpp.Parser
import MfQuery.Program.Fill

/-!
# Evaluation of emitted expressions

Guards and HAVING conditions are emitted as text. Their meaning is that of the
C++ expression the text spells, evaluated over the loop rows and the group
vectors: integer literals are `int` where they fit, table fields and integer
aggregates are 64 bits wide, arithmetic is done in the wider of the operand
types and wraps around, `&&` and `||` evaluate their right operand only when
needed, and an assignment writes the field on its left. Evaluation fails
(`none`) where the expression does not compile or throws.
-/

namespace MfQuery

open Text

/-- A field of a record of a group vector. -/
structure Place where
  group : Nat
  index : Nat
  field : Text
  deriving DecidableEq, Repr

/-- Values of subexpressions. Functions carry the arguments supplied so
far. -/
inductive Val
  | num (wide : Bool) (value : Int)
  | bool (value : Bool)
  | str (text : Text)
  | cell (content : Value) (place : Option Place)
  | iter (iterator : Iter)
  | row (record : Record)
  | vec (k : Nat)
  | element (k index : Nat)
  | vfindOf (k : Nat) (vector : Option Nat) (keys : List Value)
  | atOf (k : Nat) (index : Option Int)
  | valueOf (content : Value)
  | compareOf (text : Text) (other : Option Text)

namespace Val

/-- Operand of an arithmetic or numeric comparison operator, with its width. -/
def asNum : Val → Option (Bool × Int)
  | num wide value => some (wide, value)
  | bool value => some (false, if value then 1 else 0)
  | cell (.int value) _ => some (true, value)
  | cell .zero _ => some (true, 0)
  | _ => none

/-- Operand of a string comparison. -/
def asText : Val → Option Text
  | str text => some text
  | cell (.str text) _ => some text
  | _ => none

/-- The value as a condition. -/
def truth : Val → Option Bool
  | bool value => some value
  | num _ value => some (decide (value ≠ 0))
  | cell (.int value) _ => some (decide (value ≠ 0))
  | cell .zero _ => some false
  | _ => none

/-- Key argument of a lookup. -/
def asKey : Val → Option Value
  | num _ value => some (.int value)
  | str text => some (.str text)
  | cell content _ => some content
  | _ => none

end Val

/-- A canonical decimal numeral. -/
def canonical (digits : Text) : Option Nat :=
  if digits.all Char.isDigit && decide (numeral (ofNumeral digits) = digits) then
    some (ofNumeral digits)
  else none

/-- The number behind a stem, as in `data<k>`. -/
def numberBehind (stem name : Text) : Option Nat :=
  if stem.isPrefixOf name then canonical (name.drop stem.length) else none

/-- Type and value of an integer literal: `int` where it fits, else 64 bits. -/
def literal (digits : Text) : Option Val :=
  ((canonical digits).filter fun value => decide (value < 2 ^ 63)).map fun (value : Nat) =>
    .num (decide (2 ^ 31 ≤ value)) (value : Int)

/-- What an expression is evaluated in: the typed key columns, the loop rows
and the position of the last pass. -/
structure Env where
  cols : List Ct
  rows : Iter → Option Row
  pos : Option Int

namespace Env

/-- An iterator that is in scope. -/
def iterator (env : Env) (iterator : Iter) : Option Val :=
  (env.rows iterator).map fun _ => .iter iterator

/-- The meaning of a name. -/
def lookup (env : Env) (name : Text) : Option Val :=
  if name = "it".toList then env.iterator .it
  else if name = "xt".toList then env.iterator .xt
  else if name = "pos".toList then env.pos.map (.num false)
  else if name = "true".toList then some (.bool true)
  else if name = "false".toList then some (.bool false)
  else match numberBehind "data" name with
    | some k => some (.vec k)
    | none => (numberBehind "vfind" name).map fun k => .vfindOf k none []

end Env

/-- Reduction to the width of an operation. -/
def wrapTo (wide : Bool) (value : Int) : Int :=
  if wide then wrap64 value else wrap32 value

namespace Cpp

/-- Numeric comparison operators. -/
def BinOp.compareNum : BinOp → Int → Int → Option Bool
  | .lt, left, right => some (decide (left < right))
  | .gt, left, right => some (decide (right < left))
  | .le, left, right => some (decide (left ≤ right))
  | .ge, left, right => some (decide (right ≤ left))
  | .eq, left, right => some (decide (left = right))
  | .ne, left, right => some (decide (left ≠ right))
  | _, _, _ => none

/-- String comparison operators: lexicographic order. -/
def BinOp.compareText : BinOp → Text → Text → Option Bool
  | .lt, left, right => some (decide (left < right))
  | .gt, left, right => some (decide (right < left))
  | .le, left, right => some (!decide (right < left))
  | .ge, left, right => some (!decide (left < right))
  | .eq, left, right => some (decide (left = right))
  | .ne, left, right => some (decide (left ≠ right))
  | _, _, _ => none

/-- Arithmetic operators at the common width of the operands. -/
def BinOp.arithmetic (wide : Bool) : BinOp → Int → Int → Option Val
  | .mul, left, right => some (.num wide (wrapTo wide (left * right)))
  | .add, left, right => some (.num wide (wrapTo wide (left + right)))
  | .sub, left, right => some (.num wide (wrapTo wide (left - right)))
  | .div, left, right =>
      if right = 0 then none else some (.num wide (wrapTo wide (Int.tdiv left right)))
  | _, _, _ => none

/-- Exclusive or of two truth values; the result is an `int`. -/
def BinOp.bits (left right : Val) : Option Val :=
  match left.truth, right.truth with
  | some left, some right => some (.num false (if left != right then 1 else 0))
  | _, _ => none

/-- A binary operator that evaluates both operands. -/
def BinOp.apply (operator : BinOp) (left right : Val) : Option Val :=
  match operator with
  | .xor => BinOp.bits left right
  | _ =>
      match left.asNum, right.asNum with
      | some (leftWide, leftValue), some (rightWide, rightValue) =>
          match operator.compareNum leftValue rightValue with
          | some result => some (.bool result)
          | none => operator.arithmetic (leftWide || rightWide) leftValue rightValue
      | _, _ =>
          match left.asText, right.asText with
          | some leftText, some rightText =>
              (operator.compareText leftText rightText).map .bool
          | _, _ => none

/-- Prefix operators. -/
def UnOp.apply (env : Env) : UnOp → Val → Option Val
  | .deref, .iter iterator => (env.rows iterator).map .row
  | .deref, _ => none
  | .neg, operand => operand.asNum.map fun (wide, value) => .num wide (wrapTo wide (-value))
  | .not, operand => operand.truth.map fun value => .bool (!value)

/-- Member access through a pointer. -/
def arrowVal (group : Nat → List Record) : Val → Text → Option Val
  | .row record, field => some (.cell (record field) none)
  | .vec k, field => if field = "at".toList then some (.atOf k none) else none
  | .element k index, field =>
      (group k)[index]?.map fun record => .cell (record field) (some ⟨k, index, field⟩)
  | _, _ => none

/-- Member access on an object: `value` of an average, `compare` of a string. -/
def dotVal : Val → Text → Option Val
  | .cell content _, field =>
      if field = "value".toList then
        match content with
        | .avg _ _ | .zero => some (.valueOf content)
        | .int _ | .str _ => none
      else if field = "compare".toList then
        (Val.cell content none).asText.map fun text => .compareOf text none
      else none
  | _, _ => none

/-- One more argument of a function. -/
def supplyVal : Val → Val → Option Val
  | .vfindOf k none keys, .vec vector => some (.vfindOf k (some vector) keys)
  | .vfindOf k (some vector) keys, argument =>
      argument.asKey.map fun key => .vfindOf k (some vector) (keys ++ [key])
  | .atOf k none, argument => argument.asNum.map fun (_, index) => .atOf k (some index)
  | .compareOf text none, argument => argument.asText.map fun other => .compareOf text (some other)
  | _, _ => none

/-- `string::compare`. -/
def compareSign (left right : Text) : Int :=
  if left < right then -1 else if left = right then 0 else 1

/-- Call of a function with all its arguments. -/
def callVal (cols : List Ct) (group : Nat → List Record) : Val → Option Val
  | .vfindOf k (some vector) keys =>
      if vector = k then some (.num false (vfind cols (group k) keys)) else none
  | .atOf k (some index) =>
      if toSizeT index < (group k).length then some (.element k (toSizeT index)) else none
  | .valueOf content => some (.num true content.average.asInt)
  | .compareOf text (some other) => some (.num false (compareSign text other))
  | _ => none

/-- Assignment of an integer to a field of a group record. -/
def assignVal (group : Nat → List Record) : Val → Val → Option (Val × (Nat → List Record))
  | .cell _ (some place), right =>
      right.asNum.map fun (_, value) =>
        (.cell (.int value) (some place),
          Function.update group place.group
            ((group place.group).modify place.index fun record =>
              record.set place.field (.int value)))
  | _, _ => none

/-- Evaluation of an expression. -/
def eval (env : Env) : Expr → (Nat → List Record) → Option (Val × (Nat → List Record))
  | .number digits, group => (literal digits).map (·, group)
  | .string body, group => some (.str body, group)
  | .var name, group => (env.lookup name).map (·, group)
  | .unary operator operand, group =>
      (eval env operand group).bind fun (value, group) =>
        (operator.apply env value).map (·, group)
  | .binary .and left right, group =>
      (eval env left group).bind fun (leftValue, group) =>
        leftValue.truth.bind fun leftTruth =>
          if leftTruth then
            (eval env right group).bind fun (rightValue, group) =>
              rightValue.truth.map fun rightTruth => (.bool rightTruth, group)
          else some (.bool false, group)
  | .binary .or left right, group =>
      (eval env left group).bind fun (leftValue, group) =>
        leftValue.truth.bind fun leftTruth =>
          if leftTruth then some (.bool true, group)
          else
            (eval env right group).bind fun (rightValue, group) =>
              rightValue.truth.map fun rightTruth => (.bool rightTruth, group)
  | .binary .assign left right, group =>
      (eval env right group).bind fun (rightValue, group) =>
        (eval env left group).bind fun (leftValue, group) =>
          assignVal group leftValue rightValue
  | .binary operator left right, group =>
      (eval env left group).bind fun (leftValue, group) =>
        (eval env right group).bind fun (rightValue, group) =>
          (operator.apply leftValue rightValue).map (·, group)
  | .arrow base field, group =>
      (eval env base group).bind fun (value, group) => (arrowVal group value field).map (·, group)
  | .dot base field, group =>
      (eval env base group).bind fun (value, group) => (dotVal value field).map (·, group)
  | .supply callee argument, group =>
      (eval env callee group).bind fun (function, group) =>
        (eval env argument group).bind fun (value, group) =>
          (supplyVal function value).map (·, group)
  | .call callee, group =>
      (eval env callee group).bind fun (function, group) =>
        (callVal env.cols group function).map (·, group)

/-- The condition a text spells, with the group vectors it leaves. -/
def condition
    (env : Env)
    (text : Text)
    (group : Nat → List Record) : Option (Bool × (Nat → List Record)) :=
  (read text).bind fun expr => (eval env expr group).bind fun (value, group) =>
    value.truth.map (·, group)

end Cpp

/-- Statements run with the guards evaluated as C++ expressions. -/
def cppInterp (cols : List Ct) : Interp where
  cols := cols
  guard _ cond rows group := (Cpp.condition ⟨cols, rows, none⟩ cond group).map Prod.fst

/-- HAVING evaluated as a C++ expression. -/
def cppHaving (cols : List Ct) : Having := fun text pos group =>
  Cpp.condition ⟨cols, fun _ => none, some pos⟩ text group

end MfQuery
