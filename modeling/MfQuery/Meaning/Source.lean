import MfQuery.Having.Translation
import MfQuery.Lib.Grouping
import MfQuery.Program.Extrema
import MfQuery.Program.Order

/-!
# What a query asks for

A query groups the rows of the table by its grouping attributes. For every
group and every grouping variable its such-that line selects rows; aggregates
are taken over them, HAVING accepts or rejects the group, and the select list
says what is printed. The meaning is stated on the parts of the query, in
exact arithmetic and without reference to the program that is emitted for it.
-/

namespace MfQuery

open Text

/-- A query as its parts. -/
structure Source where
  columns : List Column
  select : List SelectEntry
  groupingAttr : List Text
  fVect : List AggregateTerm
  lines : List Line
  having : Option HavingFormula
  emf : Bool

/-- The query as written. -/
def Source.query (source : Source) : Query where
  columns := source.columns
  selectAttribute := source.select.map (SelectEntry.text .lower)
  noGroupingVars := source.lines.length
  groupingAttr := source.groupingAttr
  fVect := source.fVect.map (AggregateTerm.text .lower)
  selectCondVect := source.lines.map Line.text
  having := (source.having.map HavingFormula.text).getD []
  emf := source.emf

/-! ## Such-that lines -/

/-- Comparison of two values of one type. -/
def CmpOp.compares (operator : CmpOp) : Value → Value → Bool
  | .int left, .int right => operator.holds left right
  | .str left, .str right => operator.holds left right
  | _, _ => false

/-- What the column of an atom is compared with: a literal, or a grouping
attribute of the group. -/
def AtomValue.meant (kept : Row) : AtomValue → Value
  | int value => .int value
  | str text => .str text
  | attr name => kept name
  | shifted name sign constant => .int (sign.shift (kept name).asInt constant)

/-- A row satisfies an atom for a group. -/
def Atom.meets (atom : Atom) (kept row : Row) : Bool :=
  atom.operator.compares (row atom.column) (atom.value.meant kept)

/-- A row satisfies a line for a group. -/
def Line.meets (line : Line) (kept row : Row) : Bool :=
  line.holds fun atom => atom.meets kept row

/-- The rows of a grouping variable: in an MF query rows of the group that
satisfy its line, in an EMF query all rows that satisfy its line for the group.
Variable zero stands for the group itself. -/
def Source.selects (source : Source) (i : Nat) (kept row : Row) : Bool :=
  match i with
  | 0 => decide (keyOf source.groupingAttr row = keyOf source.groupingAttr kept)
  | i + 1 =>
      (source.emf || decide (keyOf source.groupingAttr row = keyOf source.groupingAttr kept)) &&
        (source.lines[i]?.map fun line => line.meets kept row).getD false

/-! ## Aggregates -/

/-- The aggregate of a column; of no rows it is zero. -/
def Func.value (func : Func) (column : Text) (rows : List Row) : Int :=
  match func with
  | sum => columnSum column rows
  | count => rows.length
  | avg => if rows = [] then 0 else Int.tdiv (columnSum column rows) rows.length
  | min => ((columnValues column rows).min?).getD 0
  | max => ((columnValues column rows).max?).getD 0

/-- The aggregate over the rows of its grouping variable. -/
def AggregateTerm.value (term : AggregateTerm) (rows : Nat → List Row) : Int :=
  term.func.value term.column (rows term.group)

/-! ## HAVING -/

/-- An operand of HAVING, given the values of the aggregates. -/
def HavingLeaf.meant (value : AggregateTerm → Int) : HavingLeaf → Int
  | aggregate _ term => value term
  | constant value => value

/-- HAVING holds in SQL; an unknown condition does not hold. -/
def HavingFormula.meant (formula : HavingFormula) (value : AggregateTerm → Int) : Bool :=
  (SqlVal.truth (formula.fold (fun leaf => some (.num (leaf.meant value))) HavingOp.sqlNode
    HavingOp.sqlBinds [])).getD false

/-- A query without HAVING accepts every group. -/
def Source.accepts (source : Source) (value : AggregateTerm → Int) : Bool :=
  (source.having.map fun formula => formula.meant value).getD true

/-! ## The answer -/

/-- A select entry in a result row. -/
def SelectEntry.shown (kept : Row) (value : AggregateTerm → Int) : SelectEntry → Text
  | column name => (kept name).printed
  | aggregate term => integerText (value term)

/-- The result row of a group. -/
def Source.shown (source : Source) (kept : Row) (value : AggregateTerm → Int) : Text :=
  '|' :: source.select.flatMap fun entry => entry.shown kept value ++ ['|']

/-- A query groups rows by their grouping attributes. -/
def Source.grouping (source : Source) : Grouping Row (List Value) Text where
  key := keyOf source.groupingAttr
  selects := source.selects
  result kept rows :=
    if source.accepts fun term => term.value rows then
      some (source.shown kept fun term => term.value rows)
    else none

/-- The result rows of a query on a table. -/
def Source.answer (source : Source) (table : List Row) : List Text :=
  source.grouping.answer table

end MfQuery
