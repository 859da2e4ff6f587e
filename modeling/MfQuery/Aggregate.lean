import MfQuery.Column

/-!
# Aggregates

An aggregate is written `group_func_column`, or `func_column` for group zero.
It appears in the emitted program under two field names: `toVar` inside the
records of its own group and `toABSVar` inside the result records.
-/

namespace MfQuery

open Text

/-- `Aggregate`. -/
structure Aggregate where
  group : Int
  func : Text
  column : Text
  deriving DecidableEq, Repr

namespace Aggregate

/-- The constructor: three pieces name the group, any other number does not.
Fewer than two pieces make `at` throw. -/
def ofText (aggr : Text) : Option Aggregate :=
  match cExplode '_' aggr with
  | some [group, func, column] => some ⟨atoi group, func, column⟩
  | some (func :: column :: _) => some ⟨0, func, column⟩
  | _ => none

/-- `Aggregate::toString`. -/
def toText (aggregate : Aggregate) : Text :=
  (if aggregate.group ≠ 0 then itoa aggregate.group ++ "_" else []) ++
    aggregate.func ++ "_" ++ aggregate.column

/-- `Aggregate::toABSVar`. -/
def toABSVar (aggregate : Aggregate) : Text :=
  aggregate.func ++ "_" ++ aggregate.column ++
    (if aggregate.group ≠ 0 then "_" ++ itoa aggregate.group else [])

/-- `Aggregate::toVar`. -/
def toVar (aggregate : Aggregate) : Text :=
  aggregate.func ++ "_" ++ aggregate.column

/-- `Aggregate::isAggregate`. -/
def isAggregate (aggr : Text) : Bool := decide (0 < count aggr "_")

/-- A function name, as the source compares it: in lower or in upper case. -/
def isFunc (aggregate : Aggregate) (lower upper : Text) : Bool :=
  decide (aggregate.func = lower) || decide (aggregate.func = upper)

/-- The average function, the one kept in an `Average` field. -/
def isAvg (aggregate : Aggregate) : Bool := aggregate.isFunc "avg" "AVG"

@[simp] theorem isAggregate_eq_true (aggr : Text) :
    isAggregate aggr = true ↔ '_' ∈ aggr := by
  simp only [isAggregate, decide_eq_true_eq]
  exact count_singleton_pos aggr '_'

/-- Field names of aggregates contain an underscore. -/
theorem underscore_mem_toVar (aggregate : Aggregate) : '_' ∈ aggregate.toVar := by
  simp [toVar]

theorem underscore_mem_toABSVar (aggregate : Aggregate) : '_' ∈ aggregate.toABSVar := by
  simp [toABSVar]

/-- The function name of a parsed aggregate has no underscore behind its first
character. -/
theorem underscore_notMem_func_tail
    {aggr : Text}
    {aggregate : Aggregate}
    (parsed : ofText aggr = some aggregate) :
    '_' ∉ aggregate.func.tail := by
  have pieces := cExplodeLoop_pieces '_' [] aggr (by simp)
  have exploded : ∀ fields, cExplode '_' aggr = some fields →
      cExplodeLoop '_' [] aggr = fields := by
    intro fields result
    unfold cExplode at result
    split_ifs at result
    exact Option.some.inj result
  unfold ofText at parsed
  split at parsed
  next group func column shape =>
      cases parsed
      exact pieces func (by simp [exploded _ shape])
  next func column rest _ shape =>
      cases parsed
      exact pieces func (by simp [exploded _ shape])
  next => cases parsed

/-- An aggregate whose function has no underscore shares its field name only
with itself among the parsed aggregates of its group. -/
theorem eq_of_toVar_eq
    {left right : Aggregate}
    (plain : '_' ∉ left.func)
    (present : left.func ≠ [])
    (parsed : '_' ∉ right.func.tail)
    (sameGroup : left.group = right.group)
    (sameVar : left.toVar = right.toVar) :
    left = right := by
  have rightPlain : '_' ∉ right.func := by
    obtain ⟨first, rest, shape⟩ := List.exists_cons_of_ne_nil present
    cases func : right.func with
    | nil =>
        have firstChar : first = '_' := by
          have heads := congrArg List.head? sameVar
          simpa [toVar, shape, func] using heads
        simp [shape, firstChar] at plain
    | cons head tail =>
        have firstChar : first = head := by
          have heads := congrArg List.head? sameVar
          simpa [toVar, shape, func] using heads
        rw [func] at parsed
        rw [shape, List.mem_cons, not_or] at plain
        rw [List.mem_cons, not_or, ← firstChar]
        exact ⟨plain.1, parsed⟩
  have leftSplit := split_append plain left.column
  have rightSplit := split_append rightPlain right.column
  have vars : left.func ++ '_' :: left.column = right.func ++ '_' :: right.column := by
    simpa [toVar] using sameVar
  rw [vars, rightSplit] at leftSplit
  cases left
  cases right
  simp_all

section Reading

variable {func column : Text}

/-- Two pieces are a function and a column. -/
theorem ofText_pair
    (funcNonempty : func ≠ [])
    (funcPlain : '_' ∉ func)
    (columnPlain : '_' ∉ column)
    (visible : ∃ character ∈ column, isBlank character = false) :
    ofText (func ++ '_' :: column) = some ⟨0, func, column⟩ := by
  have columnNonempty : column ≠ [] := by
    rintro rfl
    simp at visible
  have fields : Fields '_' [func, column] :=
    { nonempty := by simp [funcNonempty, columnNonempty]
      free := by simp [funcPlain, columnPlain]
      visible := by simpa using visible }
  have exploded : cExplode '_' (func ++ '_' :: column) = some [func, column] :=
    cExplode_join '_' [func, column] (by simp) fields
  simp [ofText, exploded]

/-- Three pieces are a group, a function and a column. -/
theorem ofText_triple
    {label : Text}
    (labelNonempty : label ≠ [])
    (labelPlain : '_' ∉ label)
    (funcNonempty : func ≠ [])
    (funcPlain : '_' ∉ func)
    (columnPlain : '_' ∉ column)
    (visible : ∃ character ∈ column, isBlank character = false) :
    ofText (label ++ '_' :: (func ++ '_' :: column)) = some ⟨atoi label, func, column⟩ := by
  have columnNonempty : column ≠ [] := by
    rintro rfl
    simp at visible
  have fields : Fields '_' [label, func, column] :=
    { nonempty := by simp [labelNonempty, funcNonempty, columnNonempty]
      free := by simp [labelPlain, funcPlain, columnPlain]
      visible := by simpa using visible }
  have exploded : cExplode '_' (label ++ '_' :: (func ++ '_' :: column)) =
      some [label, func, column] :=
    cExplode_join '_' [label, func, column] (by simp) fields
  simp [ofText, exploded]

end Reading

/-- Parts of an aggregate that can be written and read back. -/
structure Writable (aggregate : Aggregate) : Prop where
  group_gt : -2 ^ 31 < aggregate.group
  group_lt : aggregate.group < 2 ^ 31
  func_ne_nil : aggregate.func ≠ []
  func_plain : '_' ∉ aggregate.func
  column_plain : '_' ∉ aggregate.column
  column_visible : ∃ character ∈ aggregate.column, isBlank character = false

/-- The constructor reads back what `toString` writes. -/
theorem ofText_toText
    {aggregate : Aggregate}
    (writable : Writable aggregate) :
    ofText aggregate.toText = some aggregate := by
  obtain ⟨group, func, column⟩ := aggregate
  obtain ⟨above, below, funcNonempty, funcPlain, columnPlain, visible⟩ := writable
  by_cases zero : group = 0
  · subst group
    have read := ofText_pair funcNonempty funcPlain columnPlain visible
    rw [← read, toText, if_neg (by simp)]
    simp
  · have labelPlain : '_' ∉ itoa group := notMem_itoa (by decide) (by decide) group
    have read := ofText_triple (itoa_ne_nil group) labelPlain funcNonempty funcPlain columnPlain
      visible
    rw [atoi_itoa above.le below] at read
    rw [← read, toText, if_pos zero]
    simp

example : ofText "1_avg_quant".toList = some ⟨1, "avg", "quant"⟩ := by decide

end Aggregate
end MfQuery
