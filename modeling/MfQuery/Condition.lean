import MfQuery.Aggregate
import MfQuery.Str.Replace

/-!
# Such-that conditions

A such-that line is a sequence of atoms `group.column op value` joined by
connectives. An atom is parsed into its parts and then translated into a C++
comparison: the column is read from one loop variable and the value is a
column of the other loop variable, an aggregate looked up in its group vector,
or a literal. What kind of value it is, is decided from its text alone.
-/

namespace MfQuery

open Text

/-- `Condition`. -/
structure Condition where
  group : Int
  column : Text
  exp : Text
  value : Text
  deriving DecidableEq, Repr

/-- The operators searched first: one character each. -/
def oneCharacterOps : List Text := ["=", "<", ">", "!"]

/-- The operators searched second: two characters each. -/
def twoCharacterOps : List Text := ["<=", ">=", "!=", "<>"]

namespace Condition

/-- The group label in front of the first dot, if there is a dot. -/
def splitGroup (cond : Text) : Option (Int × Text) :=
  if '.' ∈ cond then
    (stoi (split '.' cond).1).map fun group => (group, (split '.' cond).2)
  else some (0, cond)

/-- The operator at `index` and the text behind it. -/
def splitExp (tmp : Text) (index : Nat) : Text × Text :=
  if strposM twoCharacterOps tmp = some index then
    let exp := (tmp.drop index).take 2
    (if exp = "<>".toList then "!=" else exp, tmp.drop (index + 2))
  else ((tmp.drop index).take 1, tmp.drop (index + 1))

/-- The constructor; `none` is an exception. -/
def ofText (cond : Text) : Option Condition := do
  let (group, tmp) ← splitGroup cond
  let index ← strposM oneCharacterOps tmp
  let value ← strReplace "'" "\"" (splitExp tmp index).2
  return ⟨group, tmp.take index, (splitExp tmp index).1, value⟩

/-- Left-hand side of every translation: the column of `var`. -/
def operand (condition : Condition) (var : Text) : Text :=
  var ++ "->" ++ condition.column ++
    (if contains condition.column "avg" then (".value()" : Text) else [])

/-- The comparison common to the four branches of `toCpp`. -/
def compareWith (condition : Condition) (out value : Text) : Text :=
  if contains condition.value "\"" then out ++ ".compare(" ++ value ++ ") == 0"
  else if condition.exp ≠ "=".toList then out ++ " " ++ condition.exp ++ " " ++ value
  else out ++ " == " ++ value

/-- The lookup call for an aggregate of a group. -/
def vfindCall (group : Int) (var : Text) (groupingAttr : List Text) : Text :=
  "vfind" ++ itoa group ++ "(data" ++ itoa group ++
    groupingAttr.flatMap (fun attr => ("," ++ var ++ "->" ++ attr : Text)) ++ ")"

/-- The aggregate branch of `toCpp` under `NULL_EXPR_FALSE`. -/
def aggregateCpp
    (condition : Condition)
    (var : Text)
    (groupingAttr : List Text)
    (aggregate : Aggregate) : Text :=
  let pos := vfindCall aggregate.group var groupingAttr
  let val := "data" ++ itoa aggregate.group ++ "->at(" ++ pos ++ ")->" ++ aggregate.toVar ++
    (if contains condition.value "avg" then (".value()" : Text) else [])
  "(" ++ pos ++ " > 0 && " ++ condition.compareWith (condition.operand var) val ++ ")"

/-- `Condition::toCpp`. -/
def toCpp
    (condition : Condition)
    (var var2 : Text)
    (groupingAttr : List Text)
    (columns : List Column) : Option Text :=
  if Column.isColumn condition.value columns then
    some (condition.compareWith (condition.operand var) (var2 ++ "->" ++ condition.value))
  else if Aggregate.isAggregate condition.value then
    (Aggregate.ofText condition.value).map (condition.aggregateCpp var groupingAttr)
  else if Column.hasColumn condition.value columns then
    some (condition.compareWith (condition.operand var) (var2 ++ "->" ++ condition.value))
  else some (condition.compareWith (condition.operand var) condition.value)

end Condition

/-- `Conditions`: the atoms of a line and the connectives between them. -/
structure Conditions where
  conditions : List Condition
  ops : List Text
  deriving DecidableEq, Repr

/-- Entries at even positions. -/
def evens {α : Type} : List α → List α
  | [] => []
  | [entry] => [entry]
  | entry :: _ :: rest => entry :: evens rest

/-- Entries at odd positions. -/
def odds {α : Type} : List α → List α
  | [] => []
  | [_] => []
  | _ :: entry :: rest => entry :: odds rest

namespace Conditions

/-- The constructor. -/
def ofText (conds : Text) : Option Conditions :=
  if ' ' ∉ conds then
    (Condition.ofText conds).map fun condition => ⟨[condition], []⟩
  else do
    let args ← cExplode ' ' conds
    let conditions ← (evens args).mapM Condition.ofText
    return ⟨conditions, odds args⟩

/-- The atoms behind the first one, each preceded by its connective. -/
def toCppRest
    (var var2 : Text)
    (groupingAttr : List Text)
    (columns : List Column) : List Condition → List Text → Option Text
  | [], _ => some []
  | _ :: _, [] => none
  | condition :: conditions, operator :: ops => do
      let text ← condition.toCpp var var2 groupingAttr columns
      let rest ← toCppRest var var2 groupingAttr columns conditions ops
      return " " ++ operator ++ " " ++ text ++ rest

/-- `Conditions::toCpp`. -/
def toCpp
    (line : Conditions)
    (var var2 : Text)
    (groupingAttr : List Text)
    (columns : List Column) : Option Text :=
  match line.conditions with
  | [] => none
  | first :: rest => do
      let text ← first.toCpp var var2 groupingAttr columns
      let tail ← toCppRest var var2 groupingAttr columns rest line.ops
      return text ++ tail

end Conditions

/-! ## Parsing an atom -/

/-- Comparison operators of an atom. -/
inductive CmpOp
  | eq
  | lt
  | gt
  | le
  | ge
  | ne
  | diamond
  deriving DecidableEq, Repr

namespace CmpOp

/-- The operator as written in the query. -/
def text : CmpOp → Text
  | eq => ['=']
  | lt => ['<']
  | gt => ['>']
  | le => ['<', '=']
  | ge => ['>', '=']
  | ne => ['!', '=']
  | diamond => ['<', '>']

/-- The operator as kept in the condition: `<>` becomes `!=`. -/
def exp : CmpOp → Text
  | eq => ['=']
  | lt => ['<']
  | gt => ['>']
  | le => ['<', '=']
  | ge => ['>', '=']
  | ne | diamond => ['!', '=']

end CmpOp

/-- Positions before every possible first character of a match are skipped. -/
theorem strposM_append
    (comps : List Text)
    (before rest : Text)
    (foreign : ∀ character ∈ before, ∀ comp ∈ comps, ∃ first tail,
      comp = first :: tail ∧ first ≠ character) :
    strposM comps (before ++ rest) = (strposM comps rest).map (· + before.length) := by
  induction before with
  | nil => simp
  | cons character before inductionHypothesis =>
      have noMatch : comps.any (·.isPrefixOf (character :: (before ++ rest))) = false := by
        rw [List.any_eq_false]
        intro comp member
        obtain ⟨first, tail, rfl, different⟩ :=
          foreign character (List.mem_cons_self ..) comp member
        simp [List.isPrefixOf, different]
      have later := inductionHypothesis
        fun other member => foreign other (List.mem_cons_of_mem _ member)
      simp only [List.cons_append, strposM, noMatch, Bool.false_eq_true, if_false, later,
        Option.map_map, List.length_cons]
      congr 1

/-- A match at position zero is a match of the whole text's beginning. -/
theorem strposM_eq_zero_iff
    (comps : List Text)
    (current : Char)
    (rest : Text) :
    strposM comps (current :: rest) = some 0 ↔
      comps.any (·.isPrefixOf (current :: rest)) = true := by
  unfold strposM
  split_ifs with found
  · simpa using found
  · cases strposM comps rest with
    | none => simp [found]
    | some position => simp [found]

/-- The characters operators begin with. -/
def isOpStart (character : Char) : Bool :=
  character == '=' || character == '<' || character == '>' || character == '!'

theorem foreign_oneCharacterOps
    {before : Text}
    (free : ∀ character ∈ before, isOpStart character = false) :
    ∀ character ∈ before, ∀ comp ∈ oneCharacterOps, ∃ first tail,
      comp = first :: tail ∧ first ≠ character := by
  intro character member comp operator
  have clear := free character member
  simp only [oneCharacterOps, List.mem_cons, List.not_mem_nil, or_false] at operator
  rcases operator with rfl | rfl | rfl | rfl <;>
    exact ⟨_, _, rfl, by rintro rfl; exact absurd clear (by decide)⟩

theorem foreign_twoCharacterOps
    {before : Text}
    (free : ∀ character ∈ before, isOpStart character = false) :
    ∀ character ∈ before, ∀ comp ∈ twoCharacterOps, ∃ first tail,
      comp = first :: tail ∧ first ≠ character := by
  intro character member comp operator
  have clear := free character member
  simp only [twoCharacterOps, List.mem_cons, List.not_mem_nil, or_false] at operator
  rcases operator with rfl | rfl | rfl | rfl <;>
    exact ⟨_, _, rfl, by rintro rfl; exact absurd clear (by decide)⟩

/-- The text behind a one-character operator does not extend it. -/
def CmpOp.Separates (operator : CmpOp) (value : Text) : Prop :=
  operator.text ++ value.take 1 ∉ twoCharacterOps

/-- The operator is spelled with two characters. -/
def CmpOp.isTwo : CmpOp → Bool
  | le | ge | ne | diamond => true
  | eq | lt | gt => false

/-- A two-character operator is recognised exactly when one is written. -/
theorem CmpOp.two_iff
    (operator : CmpOp)
    {value : Text}
    (separates : operator.Separates value) :
    strposM twoCharacterOps (operator.text ++ value) = some 0 ↔ operator.isTwo = true := by
  unfold CmpOp.Separates at separates
  cases operator with
  | le | ge | ne | diamond =>
      simp only [CmpOp.text, CmpOp.isTwo, iff_true]
      exact (strposM_eq_zero_iff ..).mpr (by simp [twoCharacterOps, List.isPrefixOf])
  | eq | lt | gt =>
      simp only [CmpOp.isTwo, Bool.false_eq_true, iff_false, CmpOp.text, List.cons_append,
        List.nil_append, strposM_eq_zero_iff]
      cases value with
      | nil => decide
      | cons head tail =>
          simp only [CmpOp.text, twoCharacterOps, List.any_cons] at separates ⊢
          grind

/-- The operator found behind an operator-free column name is the one
written. -/
theorem splitExp_atom
    (operator : CmpOp)
    (column value : Text)
    (free : ∀ character ∈ column, isOpStart character = false)
    (separates : operator.Separates value) :
    strposM oneCharacterOps (column ++ operator.text ++ value) = some column.length ∧
      Condition.splitExp (column ++ operator.text ++ value) column.length =
        (operator.exp, value) := by
  have first : strposM oneCharacterOps (operator.text ++ value) = some 0 := by
    cases operator <;>
      exact (strposM_eq_zero_iff ..).mpr (by simp [oneCharacterOps, List.isPrefixOf])
  have one := strposM_append oneCharacterOps column (operator.text ++ value)
    (foreign_oneCharacterOps free)
  have two := strposM_append twoCharacterOps column (operator.text ++ value)
    (foreign_twoCharacterOps free)
  rw [List.append_assoc]
  refine ⟨by simpa [first] using one, ?_⟩
  have dropped (count : Nat) : (column ++ (operator.text ++ value)).drop (column.length + count) =
      (operator.text ++ value).drop count := by
    simp [List.drop_append]
  have dropZero := dropped 0
  rw [Nat.add_zero, List.drop_zero] at dropZero
  unfold Condition.splitExp
  rw [two, dropZero, dropped 1, dropped 2]
  -- a two-character match at the column's end is a match at position zero behind it
  have shifted : ((strposM twoCharacterOps (operator.text ++ value)).map (· + column.length) =
      some column.length) ↔ strposM twoCharacterOps (operator.text ++ value) = some 0 := by
    cases strposM twoCharacterOps (operator.text ++ value) with
    | none => simp
    | some position => simp
  simp only [shifted]
  simp only [operator.two_iff separates]
  cases operator <;> simp [CmpOp.text, CmpOp.exp, CmpOp.isTwo]

/-- Single quotes become double quotes. -/
def doubleQuotes (text : Text) : Text :=
  text.map fun character => if character = '\'' then '"' else character

theorem doubleQuotes_of_notMem
    {text : Text}
    (absent : '\'' ∉ text) :
    doubleQuotes text = text := by
  unfold doubleQuotes
  conv_rhs => rw [← List.map_id text]
  apply List.map_congr_left
  intro character member
  have different : character ≠ '\'' := by
    rintro rfl
    exact absent member
  simp [different]

theorem replaceAll_quotes (text : Text) :
    Replacement.replaceAll "'".toList "\"".toList text = doubleQuotes text := by
  unfold Replacement.replaceAll doubleQuotes
  induction text with
  | nil => rfl
  | cons character text inductionHypothesis =>
      rw [Replacement.onePass, List.map_cons]
      by_cases quote : character = '\''
      · subst quote
        exact congrArg ('"' :: ·) inductionHypothesis
      · have notHere : ¬"'".toList.isPrefixOf (character :: text) = true := by
          simpa [List.isPrefixOf] using fun same => quote same.symm
        rw [if_neg notHere, if_neg quote, inductionHypothesis]

/-- The quote replacement of the constructor. -/
theorem strReplace_quotes (text : Text) :
    strReplace "'" "\"" text = some (doubleQuotes text) := by
  have disjoint : ∀ character ∈ ("\"" : Text), character ∉ ("'" : Text) :=
    List.all_iff_forall_prop.mp (by decide)
  rw [strReplace_eq_replaceAll (by decide) (by decide) disjoint, replaceAll_quotes]

/-- A written atom: group label, column, operator and value. -/
def atomText (group : Nat) (column : Text) (operator : CmpOp) (value : Text) : Text :=
  numeral group ++ '.' :: (column ++ operator.text ++ value)

/-- The constructor recovers the parts of a written atom. -/
theorem Condition.ofText_atomText
    {group : Nat}
    {column value : Text}
    {operator : CmpOp}
    (fits : group < 2 ^ 31)
    (free : ∀ character ∈ column, isOpStart character = false)
    (separates : operator.Separates value) :
    Condition.ofText (atomText group column operator value) =
      some ⟨group, column, operator.exp, doubleQuotes value⟩ := by
  have dotFree : '.' ∉ numeral group := by
    intro member
    exact absurd (isDigit_of_mem_numeral member) (by decide)
  have dot : '.' ∈ atomText group column operator value := by simp [atomText]
  have labelled : splitGroup (atomText group column operator value) =
      some ((group : Int), column ++ operator.text ++ value) := by
    rw [splitGroup, if_pos dot, atomText, split_append dotFree]
    simp [stoi_numeral fits]
  obtain ⟨position, parts⟩ := splitExp_atom operator column value free separates
  unfold Condition.ofText
  simp only [labelled, position, parts, strReplace_quotes, Option.bind_eq_bind, Option.bind_some]
  rw [List.append_assoc, List.take_left]
  rfl

example : Condition.ofText "1.month<=12".toList = some ⟨1, "month", "<=", "12"⟩ := by decide

end MfQuery
