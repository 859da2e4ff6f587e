import MfQuery.Meaning.Output

/-!
# Values of aggregates

The field of an aggregate is folded from zeroed memory in machine arithmetic.
Where sums fit into 64 bits and extrema reach zero, it reads as the aggregate
in exact arithmetic, both in the HAVING condition and on the printed line.
-/

namespace MfQuery

open Text

/-- The field holds the aggregate: sums fit into 64 bits, and the extrema are
not cut off by the zero their fields start with. -/
def Func.Fits (func : Func) (column : Text) (rows : List Row) : Prop :=
  match func with
  | sum | avg => -2 ^ 63 ≤ columnSum column rows ∧ columnSum column rows < 2 ^ 63
  | count => True
  | min => rows = [] ∨ ∃ row ∈ rows, (row column).asInt ≤ 0
  | max => rows = [] ∨ ∃ row ∈ rows, 0 ≤ (row column).asInt

instance Func.Fits.decidable
    (column : Text)
    (rows : List Row) :
    (func : Func) → Decidable (func.Fits column rows)
  | .sum | .avg =>
      inferInstanceAs (Decidable (-2 ^ 63 ≤ columnSum column rows ∧ columnSum column rows < 2 ^ 63))
  | .count => .isTrue trivial
  | .min => inferInstanceAs (Decidable (rows = [] ∨ ∃ row ∈ rows, (row column).asInt ≤ 0))
  | .max => inferInstanceAs (Decidable (rows = [] ∨ ∃ row ∈ rows, 0 ≤ (row column).asInt))

/-- The update the scans emit for a function. -/
def Func.update : Func → Update
  | sum => .sum
  | count => .count
  | avg => .avg
  | min => .min
  | max => .max

theorem AggregateTerm.update_aggregate (term : AggregateTerm) :
    (term.aggregate .lower).update = term.func.update := by
  have named : (term.aggregate .lower).func = term.func.text .lower := rfl
  unfold Aggregate.update Aggregate.isFunc
  rw [named]
  cases term.func <;> decide

theorem AggregateTerm.isAvg_aggregate (term : AggregateTerm) :
    (term.aggregate .lower).isAvg = decide (term.func = .avg) := by
  have named : (term.aggregate .lower).func = term.func.text .lower := rfl
  unfold Aggregate.isAvg Aggregate.isFunc
  rw [named]
  cases term.func <;> decide

/-- Zeroed memory, or an integer. -/
def Value.IsNumber (value : Value) : Prop := value = .zero ∨ ∃ number, value = .int number

/-- Zeroed memory, or an average. -/
def Value.IsAverage (value : Value) : Prop :=
  value = .zero ∨ ∃ count sum, value = .avg count sum

theorem Value.IsNumber.printed_eq
    {value : Value}
    (isNumber : value.IsNumber) :
    value.printed = integerText value.asInt := by
  obtain rfl | ⟨number, rfl⟩ := isNumber
  · rfl
  · rfl

section Fields

variable {term : AggregateTerm} {rows : List Row}

/-- A property of zeroed memory that every update keeps holds of the field. -/
theorem foldl_fieldStep_induction
    {aggregate : Aggregate}
    {holds : Value → Prop}
    (zero : holds .zero)
    (keeps : ∀ value, ∀ row ∈ rows, holds value → holds (aggregate.fieldStep value row)) :
    holds (rows.foldl aggregate.fieldStep .zero) := by
  induction rows using List.reverseRecOn with
  | nil => exact zero
  | append_singleton rows row inductionHypothesis =>
      rw [List.foldl_concat]
      refine keeps _ row (by simp) (inductionHypothesis fun value other member => ?_)
      exact keeps value other (List.mem_append_left _ member)

theorem isNumber_field
    (notAvg : term.func ≠ .avg)
    (integers : term.func ≠ .count → IntColumn term.column rows) :
    (rows.foldl (term.aggregate .lower).fieldStep .zero).IsNumber := by
  apply foldl_fieldStep_induction
  · exact .inl rfl
  · intro value row member isNumber
    simp only [Aggregate.fieldStep, term.update_aggregate]
    by_cases isCount : term.func = .count
    · rw [isCount]
      exact .inr ⟨_, rfl⟩
    · obtain ⟨number, stored⟩ := integers isCount row member
      have content : row (term.aggregate .lower).column = .int number := stored
      rw [content]
      cases isFunc : term.func with
      | avg => exact (notAvg isFunc).elim
      | count => exact (isCount isFunc).elim
      | sum => exact .inr ⟨_, rfl⟩
      | min =>
          simp only [Func.update, Value.takeLess]
          split_ifs
          · exact .inr ⟨_, rfl⟩
          · exact isNumber
      | max =>
          simp only [Func.update, Value.takeGreater]
          split_ifs
          · exact .inr ⟨_, rfl⟩
          · exact isNumber

theorem isAverage_field
    (isAvg : term.func = .avg)
    (integers : IntColumn term.column rows) :
    (rows.foldl (term.aggregate .lower).fieldStep .zero).IsAverage := by
  apply foldl_fieldStep_induction
  · exact .inl rfl
  · intro value row member _
    obtain ⟨number, stored⟩ := integers row member
    have content : row (term.aggregate .lower).column = .int number := stored
    simp only [Aggregate.fieldStep, term.update_aggregate, content, isAvg, Func.update]
    exact .inr ⟨_, _, rfl⟩

/-- The least of no values, or of values that reach zero, is found from
zero. -/
theorem foldl_min_eq_min?
    {values : List Int}
    (reaches : values = [] ∨ ∃ value ∈ values, value ≤ 0) :
    values.foldl min 0 = values.min?.getD 0 := by
  rcases reaches with rfl | exists_
  · rfl
  · have least := (isLeast_foldl_min_iff values 0).mpr exists_
    have isMin : values.min? = some (values.foldl min 0) :=
      List.min?_eq_some_iff.mpr ⟨least.1, fun value member => least.2 member⟩
    rw [isMin, Option.getD_some]

theorem foldl_max_eq_max?
    {values : List Int}
    (reaches : values = [] ∨ ∃ value ∈ values, 0 ≤ value) :
    values.foldl max 0 = values.max?.getD 0 := by
  rcases reaches with rfl | exists_
  · rfl
  · have greatest := (isGreatest_foldl_max_iff values 0).mpr exists_
    have isMax : values.max? = some (values.foldl max 0) :=
      List.max?_eq_some_iff.mpr ⟨greatest.1, fun value member => greatest.2 member⟩
    rw [isMax, Option.getD_some]

theorem columnValues_reaches
    {column : Text}
    {reached : Int → Prop}
    (reaches : rows = [] ∨ ∃ row ∈ rows, reached (row column).asInt) :
    columnValues column rows = [] ∨ ∃ value ∈ columnValues column rows, reached value := by
  rcases reaches with rfl | ⟨row, member, isReached⟩
  · exact .inl rfl
  · exact .inr ⟨_, List.mem_map_of_mem member, isReached⟩

/-- The folded field reads as the aggregate. -/
theorem AggregateTerm.read_foldl
    (integers : term.func ≠ .count → IntColumn term.column rows)
    (few : rows.length < 2 ^ 31)
    (fits : term.func.Fits term.column rows)
    {record : Record}
    (field : record (term.aggregate .lower).toVar =
      rows.foldl (term.aggregate .lower).fieldStep .zero) :
    ((term.aggregate .lower).readValue record).asInt = term.func.value term.column rows := by
  have column : (term.aggregate .lower).column = term.column := rfl
  have direct : term.func ≠ .avg → (term.aggregate .lower).readValue record =
      rows.foldl (term.aggregate .lower).fieldStep .zero := by
    intro notAvg
    rw [Aggregate.readValue, term.isAvg_aggregate, decide_eq_false notAvg, field]
    rfl
  cases isFunc : term.func with
  | sum =>
      have named : (term.aggregate .lower).func = RefFunc.sum.text := by
        rw [AggregateTerm.aggregate, isFunc]
        rfl
      rw [isFunc] at fits integers
      exact RefFunc.read_foldl named (fun _ => integers (by decide)) few fits field
  | count =>
      have named : (term.aggregate .lower).func = RefFunc.count.text := by
        rw [AggregateTerm.aggregate, isFunc]
        rfl
      exact RefFunc.read_foldl named (fun sums => (sums rfl).elim) few trivial field
  | avg =>
      have named : (term.aggregate .lower).func = RefFunc.avg.text := by
        rw [AggregateTerm.aggregate, isFunc]
        rfl
      rw [isFunc] at fits integers
      exact RefFunc.read_foldl named (fun _ => integers (by decide)) few fits field
  | min =>
      have step : (term.aggregate .lower).fieldStep =
          fun value row => value.takeLess (row term.column) := by
        funext value row
        simp only [Aggregate.fieldStep, term.update_aggregate, isFunc, Func.update, column]
      rw [isFunc] at fits direct integers
      rw [direct (by decide), step, asInt_foldl_takeLess (integers (by decide))]
      exact foldl_min_eq_min? (columnValues_reaches fits)
  | max =>
      have step : (term.aggregate .lower).fieldStep =
          fun value row => value.takeGreater (row term.column) := by
        funext value row
        simp only [Aggregate.fieldStep, term.update_aggregate, isFunc, Func.update, column]
      rw [isFunc] at fits direct integers
      rw [direct (by decide), step, asInt_foldl_takeGreater (integers (by decide))]
      exact foldl_max_eq_max? (columnValues_reaches fits)

/-- The aggregate that is copied into the result record is a number. -/
theorem AggregateTerm.isNumber_readValue
    (integers : term.func ≠ .count → IntColumn term.column rows)
    {record : Record}
    (field : record (term.aggregate .lower).toVar =
      rows.foldl (term.aggregate .lower).fieldStep .zero) :
    ((term.aggregate .lower).readValue record).IsNumber := by
  rw [Aggregate.readValue, term.isAvg_aggregate, field]
  by_cases isAvg : term.func = .avg
  · rw [decide_eq_true isAvg, if_pos rfl, Value.average]
    split_ifs
    · exact .inr ⟨_, rfl⟩
    · exact .inr ⟨_, rfl⟩
  · rw [decide_eq_false isAvg, if_neg Bool.false_ne_true]
    exact isNumber_field isAvg integers

/-- The aggregate as HAVING reads it. -/
theorem AggregateTerm.stored_eq
    (integers : term.func ≠ .count → IntColumn term.column rows)
    {record : Record}
    (field : record (term.aggregate .lower).toVar =
      rows.foldl (term.aggregate .lower).fieldStep .zero) :
    term.stored .lower record =
      some (.num true ((term.aggregate .lower).readValue record).asInt) := by
  unfold AggregateTerm.stored Aggregate.readValue
  rw [term.isAvg_aggregate, field]
  by_cases isAvg : term.func = .avg
  · rw [decide_eq_true isAvg]
    obtain isZero | ⟨count, sum, isAverage⟩ := isAverage_field isAvg (integers (by rw [isAvg]; decide))
    · rw [isZero]
      rfl
    · rw [isAverage]
      rfl
  · rw [decide_eq_false isAvg]
    obtain isZero | ⟨number, isNumber⟩ := isNumber_field isAvg integers
    · rw [isZero]
      rfl
    · rw [isNumber]
      rfl

end Fields

end MfQuery
