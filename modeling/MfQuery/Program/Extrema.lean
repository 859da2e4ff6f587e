import MfQuery.Program.Accumulation

/-!
# Minima and maxima

The fields of `min` and `max` start in zeroed memory and are replaced only by
smaller, or larger, values. They therefore end as the extremum of the admitted
values and zero, which is the extremum of the admitted values exactly when
these reach to zero or beyond.
-/

namespace MfQuery

open Text

/-! ## Folding extrema from a start value -/

section Order

variable {α : Type} [LinearOrder α]

theorem foldl_min_le_start
    (values : List α)
    (start : α) :
    values.foldl min start ≤ start := by
  induction values generalizing start with
  | nil => exact le_refl start
  | cons value values inductionHypothesis =>
      exact (inductionHypothesis (min start value)).trans (min_le_left ..)

theorem foldl_min_le_of_mem
    {values : List α}
    {value : α}
    (member : value ∈ values)
    (start : α) :
    values.foldl min start ≤ value := by
  induction values generalizing start with
  | nil => cases member
  | cons first values inductionHypothesis =>
      rcases List.mem_cons.mp member with rfl | later
      · exact (foldl_min_le_start values _).trans (min_le_right ..)
      · exact inductionHypothesis later _

theorem foldl_min_eq_start_or_mem
    (values : List α)
    (start : α) :
    values.foldl min start = start ∨ values.foldl min start ∈ values := by
  induction values generalizing start with
  | nil => exact .inl rfl
  | cons first values inductionHypothesis =>
      rw [List.foldl_cons]
      rcases inductionHypothesis (min start first) with unchanged | later
      · rw [unchanged]
        rcases min_choice start first with isStart | isFirst
        · exact .inl isStart
        · exact .inr (List.mem_cons.mpr (.inl isFirst))
      · exact .inr (List.mem_cons_of_mem _ later)

/-- The least of the start and the values is the least of the values exactly
when some value is at most the start. -/
theorem isLeast_foldl_min_iff
    (values : List α)
    (start : α) :
    IsLeast {value | value ∈ values} (values.foldl min start) ↔
      ∃ value ∈ values, value ≤ start := by
  constructor
  · rintro ⟨member, -⟩
    exact ⟨_, member, foldl_min_le_start values start⟩
  · rintro ⟨value, member, atMost⟩
    refine ⟨?_, fun other inside => foldl_min_le_of_mem inside start⟩
    rcases foldl_min_eq_start_or_mem values start with isStart | isValue
    · have same : value = start :=
        le_antisymm atMost (isStart ▸ foldl_min_le_of_mem member start)
      rw [isStart, ← same]
      exact member
    · exact isValue

/-- The same for the greatest. -/
theorem isGreatest_foldl_max_iff
    (values : List α)
    (start : α) :
    IsGreatest {value | value ∈ values} (values.foldl max start) ↔
      ∃ value ∈ values, start ≤ value :=
  isLeast_foldl_min_iff (α := αᵒᵈ) values start

end Order

/-! ## The fields -/

/-- The values of an integer column. -/
def columnValues (column : Text) (rows : List Row) : List Int :=
  rows.map fun row => (row column).asInt

theorem asInt_foldl_takeLess
    {column : Text}
    {rows : List Row}
    (integers : IntColumn column rows)
    (field : Value) :
    (rows.foldl (fun value row => value.takeLess (row column)) field).asInt =
      (columnValues column rows).foldl min field.asInt := by
  induction rows generalizing field with
  | nil => rfl
  | cons row rows inductionHypothesis =>
      obtain ⟨number, stored⟩ := integers row (List.mem_cons_self ..)
      have later := inductionHypothesis
        (fun other member => integers other (List.mem_cons_of_mem _ member))
        (field.takeLess (row column))
      have step : (field.takeLess (row column)).asInt = min field.asInt (row column).asInt := by
        rw [stored, Value.takeLess, Value.asInt_int]
        split_ifs with less
        · exact (min_eq_right less.le).symm
        · exact (min_eq_left (not_lt.mp less)).symm
      rw [step] at later
      exact later

theorem asInt_foldl_takeGreater
    {column : Text}
    {rows : List Row}
    (integers : IntColumn column rows)
    (field : Value) :
    (rows.foldl (fun value row => value.takeGreater (row column)) field).asInt =
      (columnValues column rows).foldl max field.asInt := by
  induction rows generalizing field with
  | nil => rfl
  | cons row rows inductionHypothesis =>
      obtain ⟨number, stored⟩ := integers row (List.mem_cons_self ..)
      have later := inductionHypothesis
        (fun other member => integers other (List.mem_cons_of_mem _ member))
        (field.takeGreater (row column))
      have step : (field.takeGreater (row column)).asInt =
          max field.asInt (row column).asInt := by
        rw [stored, Value.takeGreater, Value.asInt_int]
        split_ifs with less
        · exact (max_eq_right less.le).symm
        · exact (max_eq_left (not_lt.mp less)).symm
      rw [step] at later
      exact later

/-- The field of a `min` aggregate folded from zeroed memory is the minimum of
the column exactly when the column has a value that is not positive; dually
for `max`. -/
theorem extremum_iff
    {aggregate : Aggregate}
    {rows : List Row}
    (integers : IntColumn aggregate.column rows) :
    (aggregate.update = .min →
      (IsLeast {value | value ∈ columnValues aggregate.column rows}
          (rows.foldl aggregate.fieldStep .zero).asInt ↔
        ∃ row ∈ rows, (row aggregate.column).asInt ≤ 0)) ∧
    (aggregate.update = .max →
      (IsGreatest {value | value ∈ columnValues aggregate.column rows}
          (rows.foldl aggregate.fieldStep .zero).asInt ↔
        ∃ row ∈ rows, 0 ≤ (row aggregate.column).asInt)) := by
  constructor
  · intro isMin
    have step : aggregate.fieldStep = fun value row =>
        value.takeLess (row aggregate.column) := by
      funext value row
      simp only [Aggregate.fieldStep, isMin]
    rw [step, asInt_foldl_takeLess integers]
    rw [show Value.zero.asInt = 0 from rfl, isLeast_foldl_min_iff]
    simp [columnValues]
  · intro isMax
    have step : aggregate.fieldStep = fun value row =>
        value.takeGreater (row aggregate.column) := by
      funext value row
      simp only [Aggregate.fieldStep, isMax]
    rw [step, asInt_foldl_takeGreater integers]
    rw [show Value.zero.asInt = 0 from rfl, isGreatest_foldl_max_iff]
    simp [columnValues]

/-- A query for the smallest and the largest quantity of every customer. -/
def extremaQuery (emf : Bool) : Query where
  columns := [⟨"cust", .varchar⟩, ⟨"quant", .int⟩]
  selectAttribute := ["cust"]
  noGroupingVars := 0
  groupingAttr := ["cust"]
  fVect := ["min_quant", "max_quant"]
  selectCondVect := []
  having := []
  emf := emf

/-- Its scan generator. -/
def extremaGenerator (emf : Bool) : ScanGenerator where
  noGroupingVars := 0
  columns := [⟨"cust", .varchar⟩, ⟨"quant", .int⟩]
  selectColumns := ["cust"]
  selectAggregates := []
  allAggregates := [⟨0, "min", "quant"⟩, ⟨0, "max", "quant"⟩]
  selectConditions := []
  having := []
  groupingAttr := ["cust"]
  emf := emf

theorem extremaQuery_keyedBy (emf : Bool) :
    (extremaQuery emf).KeyedBy [⟨"cust", .string⟩] saleTable where
  key_types := rfl
  typed := (saleQuery_keyedBy emf).typed
  plain := by cases emf <;> decide

end MfQuery
