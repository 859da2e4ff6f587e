import MfQuery.Program.Run

/-!
# Accumulation

Inside the record of a kept row, each aggregate of the group folds its own
field over the selected rows: the fields of different aggregates never meet.
For `sum`, `count` and `avg` the folds are the reference aggregates.
-/

namespace MfQuery

open Text

/-! ## Fields -/

/-- The new content of an aggregate's field for one more row. -/
def Aggregate.fieldStep (aggregate : Aggregate) (value : Value) (row : Row) : Value :=
  match aggregate.update with
  | .avg => value.add (row aggregate.column)
  | .sum => value.plus (row aggregate.column)
  | .count => value.plus (.int 1)
  | .min => value.takeLess (row aggregate.column)
  | .max => value.takeGreater (row aggregate.column)
  | .none => value

theorem Aggregate.apply_toVar
    (aggregate : Aggregate)
    (row : Row)
    (record : Record) :
    aggregate.apply row record aggregate.toVar =
      aggregate.fieldStep (record aggregate.toVar) row := by
  unfold Aggregate.apply Aggregate.fieldStep
  cases aggregate.update <;> simp only [Record.set_self]

/-- Reading an aggregate from a record of its group: an average through
`value()`. -/
def Aggregate.readValue (aggregate : Aggregate) (record : Record) : Value :=
  if aggregate.isAvg then (record aggregate.toVar).average else record aggregate.toVar

theorem applyAll_of_ne
    {bucket : List Aggregate}
    {field : Text}
    (different : ∀ aggregate ∈ bucket, field ≠ aggregate.toVar)
    (row : Row)
    (record : Record) :
    applyAll bucket row record field = record field := by
  induction bucket generalizing record with
  | nil => rfl
  | cons aggregate bucket inductionHypothesis =>
      rw [applyAll_cons, Function.comp_apply,
        inductionHypothesis fun other member => different other (List.mem_cons_of_mem _ member)]
      exact aggregate.apply_of_ne (different aggregate (List.mem_cons_self ..)) row record

/-- The field name of an aggregate is its own within a bucket. -/
def OwnField (bucket : List Aggregate) (aggregate : Aggregate) : Prop :=
  ∀ other ∈ bucket, other.toVar = aggregate.toVar → other = aggregate

theorem applyAll_toVar
    {bucket : List Aggregate}
    (nodup : bucket.Nodup)
    {aggregate : Aggregate}
    (member : aggregate ∈ bucket)
    (own : OwnField bucket aggregate)
    (row : Row)
    (record : Record) :
    applyAll bucket row record aggregate.toVar =
      aggregate.fieldStep (record aggregate.toVar) row := by
  induction bucket generalizing record with
  | nil => cases member
  | cons first bucket inductionHypothesis =>
      obtain ⟨absent, nodupRest⟩ := List.nodup_cons.mp nodup
      rw [applyAll_cons, Function.comp_apply]
      by_cases same : first = aggregate
      · subst first
        rw [applyAll_of_ne, aggregate.apply_toVar]
        intro other inside equal
        exact absent (own other (List.mem_cons_of_mem _ inside) equal.symm ▸ inside)
      · have later : aggregate ∈ bucket := by
          rcases List.mem_cons.mp member with rfl | inside
          · exact (same rfl).elim
          · exact inside
        rw [inductionHypothesis nodupRest later
          fun other inside => own other (List.mem_cons_of_mem _ inside)]
        rw [first.apply_of_ne]
        intro equal
        exact same (own first (List.mem_cons_self ..) equal.symm)

/-- Over many rows an aggregate folds its own field. -/
theorem foldl_applyAll_toVar
    {bucket : List Aggregate}
    (nodup : bucket.Nodup)
    {aggregate : Aggregate}
    (member : aggregate ∈ bucket)
    (own : OwnField bucket aggregate)
    (rows : List Row)
    (record : Record) :
    rows.foldl (fun current row => applyAll bucket row current) record aggregate.toVar =
      rows.foldl aggregate.fieldStep (record aggregate.toVar) := by
  induction rows generalizing record with
  | nil => rfl
  | cons row rows inductionHypothesis =>
      rw [List.foldl_cons, List.foldl_cons, inductionHypothesis,
        applyAll_toVar nodup member own]

/-- Zeroed memory is where every aggregate starts. -/
theorem plainRecord_toVar
    {selectColumns : List Text}
    (plain : ∀ column ∈ selectColumns, '_' ∉ column)
    (aggregate : Aggregate)
    (row : Row) :
    plainRecord selectColumns row aggregate.toVar = .zero := by
  unfold plainRecord
  rw [if_neg]
  intro member
  exact plain _ member aggregate.underscore_mem_toVar

/-- Names of the five aggregate functions carry no underscore. -/
theorem Aggregate.plain_func_of_update
    {aggregate : Aggregate}
    (known : aggregate.update ≠ .none) :
    '_' ∉ aggregate.func ∧ aggregate.func ≠ [] := by
  unfold Aggregate.update Aggregate.isFunc at known
  simp only [Bool.or_eq_true, decide_eq_true_eq] at known
  split_ifs at known with avg sum count min max
  · rcases avg with named | named <;> rw [named] <;> decide
  · rcases sum with named | named <;> rw [named] <;> decide
  · rcases count with named | named <;> rw [named] <;> decide
  · rcases min with named | named <;> rw [named] <;> decide
  · rcases max with named | named <;> rw [named] <;> decide
  · exact absurd rfl known

/-- An aggregate of a known function has its field for itself. -/
theorem ScanGenerator.Parsed.ownField
    {generator : ScanGenerator}
    (parsed : generator.Parsed)
    {i : Nat}
    {aggregate : Aggregate}
    (inGroup : aggregate.group = (i : Int))
    (known : aggregate.update ≠ .none) :
    OwnField (generator.bucket i) aggregate := by
  intro other member sameVar
  obtain ⟨inF, otherGroup⟩ := List.mem_filter.mp member
  obtain ⟨plain, present⟩ := Aggregate.plain_func_of_update known
  have sameGroup : aggregate.group = other.group := by
    rw [inGroup, of_decide_eq_true otherGroup]
  exact (Aggregate.eq_of_toVar_eq plain present (parsed.func_tail other inF) sameGroup
    sameVar.symm).symm

/-- The field an aggregate ends with in the record of a kept row. -/
theorem finalRecord_toVar
    {guards : Guards}
    {generator : ScanGenerator}
    (parsed : generator.Parsed)
    (nodup : generator.allAggregates.Nodup)
    {i : Nat}
    {aggregate : Aggregate}
    (member : aggregate ∈ generator.bucket i)
    (own : OwnField (generator.bucket i) aggregate)
    (table : List Row)
    (group : Nat → List Record)
    (kept : Row) :
    finalRecord guards generator table group i kept aggregate.toVar =
      (table.filter (guards.selects generator group i kept)).foldl aggregate.fieldStep
        .zero := by
  have nodupBucket : (generator.bucket i).Nodup := nodup.filter _
  rw [finalRecord, foldl_applyAll_toVar nodupBucket member own,
    plainRecord_toVar parsed.plain_column]

/-! ## Reference aggregates -/

/-- The sum of an integer column. -/
def columnSum (column : Text) (rows : List Row) : Int :=
  (rows.map fun row => (row column).asInt).sum

theorem columnSum_concat
    (column : Text)
    (rows : List Row)
    (row : Row) :
    columnSum column (rows ++ [row]) = columnSum column rows + (row column).asInt := by
  simp [columnSum]

/-- The column holds integers. -/
def IntColumn (column : Text) (rows : List Row) : Prop :=
  ∀ row ∈ rows, ∃ number, row column = .int number

theorem foldl_plus
    {column : Text}
    (rows : List Row)
    (integers : IntColumn column rows) :
    (rows.foldl (fun value row => value.plus (row column)) Value.zero).asInt =
      wrap64 (columnSum column rows) := by
  induction rows using List.reverseRecOn with
  | nil => rfl
  | append_singleton rows row inductionHypothesis =>
      obtain ⟨number, stored⟩ := integers row (by simp)
      rw [List.foldl_concat, columnSum_concat, stored]
      rw [Value.plus_int, Value.asInt_int, Value.asInt_int,
        inductionHypothesis fun other member => integers other (by simp [member])]
      exact Int.bmod_add_bmod

theorem foldl_count (rows : List Row) :
    (rows.foldl (fun value _ => value.plus (.int 1)) Value.zero).asInt =
      wrap64 rows.length := by
  induction rows using List.reverseRecOn with
  | nil => rfl
  | append_singleton rows row inductionHypothesis =>
      rw [List.foldl_concat, List.length_append]
      rw [Value.plus_int, Value.asInt_int, inductionHypothesis]
      exact Int.bmod_add_bmod

theorem foldl_add
    {column : Text}
    (rows : List Row)
    (integers : IntColumn column rows) :
    (rows.foldl (fun value row => value.add (row column)) Value.zero).asAvg =
      (wrap32 rows.length, wrap64 (columnSum column rows)) := by
  induction rows using List.reverseRecOn with
  | nil => rfl
  | append_singleton rows row inductionHypothesis =>
      obtain ⟨number, stored⟩ := integers row (by simp)
      rw [List.foldl_concat, columnSum_concat, List.length_append, stored]
      rw [Value.add_int, Value.asAvg_avg, Value.asInt_int,
        inductionHypothesis fun other member => integers other (by simp [member])]
      simp only [wrap32, wrap64, Int.bmod_add_bmod, List.length_singleton, Nat.cast_add,
        Nat.cast_one]

/-- The functions with a reference aggregate here. -/
inductive RefFunc
  | sum
  | count
  | avg
  deriving DecidableEq, Repr

/-- Name of a reference aggregate. -/
def RefFunc.text : RefFunc → Text
  | sum => ['s', 'u', 'm']
  | count => ['c', 'o', 'u', 'n', 't']
  | avg => ['a', 'v', 'g']

/-- The reference aggregate of a column: the sum, the number of rows, or the
quotient of the two truncated toward zero, zero on no rows. -/
def RefFunc.value (func : RefFunc) (column : Text) (rows : List Row) : Int :=
  match func with
  | sum => columnSum column rows
  | count => rows.length
  | avg => if rows = [] then 0 else Int.tdiv (columnSum column rows) rows.length

/-- Sums fit into 64 bits; `count` sums nothing. -/
def RefFunc.Fits (func : RefFunc) (column : Text) (rows : List Row) : Prop :=
  match func with
  | count => True
  | sum | avg => -2 ^ 63 ≤ columnSum column rows ∧ columnSum column rows < 2 ^ 63

/-- The update the scans emit for a reference aggregate. -/
def RefFunc.update : RefFunc → Update
  | sum => .sum
  | count => .count
  | avg => .avg

theorem RefFunc.update_eq
    {func : RefFunc}
    {aggregate : Aggregate}
    (named : aggregate.func = func.text) :
    aggregate.update = func.update := by
  unfold Aggregate.update Aggregate.isFunc
  rw [named]
  cases func <;> decide

theorem RefFunc.isAvg_eq
    {func : RefFunc}
    {aggregate : Aggregate}
    (named : aggregate.func = func.text) :
    aggregate.isAvg = decide (func = .avg) := by
  unfold Aggregate.isAvg Aggregate.isFunc
  rw [named]
  cases func <;> decide

/-- The folded field of a reference aggregate reads as its value. -/
theorem RefFunc.read_foldl
    {func : RefFunc}
    {aggregate : Aggregate}
    (named : aggregate.func = func.text)
    {rows : List Row}
    (integers : func ≠ .count → IntColumn aggregate.column rows)
    (few : rows.length < 2 ^ 31)
    (fits : func.Fits aggregate.column rows)
    {record : Record}
    (field : record aggregate.toVar = rows.foldl aggregate.fieldStep .zero) :
    (aggregate.readValue record).asInt = func.value aggregate.column rows := by
  have update := RefFunc.update_eq named
  rw [Aggregate.readValue, RefFunc.isAvg_eq named, field]
  cases func with
  | sum =>
      have step : aggregate.fieldStep = fun value row => value.plus (row aggregate.column) := by
        funext value row
        simp only [Aggregate.fieldStep, update, RefFunc.update]
      have folded := foldl_plus rows (integers (by simp))
      rw [wrap64_of_bounds fits.1 fits.2] at folded
      rw [step]
      exact folded
  | count =>
      have step : aggregate.fieldStep = fun value _ => value.plus (.int 1) := by
        funext value row
        simp only [Aggregate.fieldStep, update, RefFunc.update]
      have folded := foldl_count rows
      rw [wrap64_of_bounds (by omega) (by omega)] at folded
      rw [step]
      exact folded
  | avg =>
      have step : aggregate.fieldStep = fun value row => value.add (row aggregate.column) := by
        funext value row
        simp only [Aggregate.fieldStep, update, RefFunc.update]
      have folded := foldl_add rows (integers (by simp))
      rw [wrap32_of_bounds (by omega) (by omega), wrap64_of_bounds fits.1 fits.2] at folded
      rw [step]
      simp only [decide_true, if_true, Value.average, folded, RefFunc.value]
      by_cases empty : rows = []
      · simp [empty]
      · simp [empty]

/-! ## The accumulated values -/

/-- The rows admitted to the scan of an aggregate for a kept row: in an MF
program the rows of its key that pass the guard, in an EMF program the rows
that pass the guard together with it. -/
def admittedRows
    (guards : Guards)
    (query : Query)
    (table : List Row)
    (group : Nat → List Record)
    (i : Nat)
    (kept : Row) : List Row :=
  if query.emf then
    table.filter fun row => guards.admits i group (rowsOf (some kept) (some row))
  else
    table.filter fun row =>
      decide (keyOf query.groupingAttr row = keyOf query.groupingAttr kept) &&
        guards.admits i group (rowsOf (some row) none)

theorem admittedRows_sublist
    (guards : Guards)
    (query : Query)
    (table : List Row)
    (group : Nat → List Record)
    (i : Nat)
    (kept : Row) :
    (admittedRows guards query table group i kept).Sublist table := by
  unfold admittedRows
  split_ifs <;> exact List.filter_sublist

/-- The rows a scan selects are the admitted rows. -/
theorem filter_selects
    {query : Query}
    {generator : ScanGenerator}
    (built : query.scanGenerator = some generator)
    (guards : Guards)
    (table : List Row)
    (group : Nat → List Record)
    (i : Nat)
    (kept : Row) :
    table.filter (guards.selects generator group i kept) =
      admittedRows guards query table group i kept := by
  obtain ⟨_, _, _, -, -, -, rfl⟩ := (query.scanGenerator_eq_some_iff generator).mp built
  unfold admittedRows Guards.selects
  cases query.emf <;> rfl

/-- The record of an aggregate at the position of a kept row; an aggregate of
a known function has folded its field over the admitted rows. -/
theorem Scanned.exists_record
    {query : Query}
    {generator : ScanGenerator}
    (built : query.scanGenerator = some generator)
    {guards : Guards}
    {table : List Row}
    {store : Store}
    (scanned : Scanned guards generator table store)
    (inF : generator.GroupsInRange)
    (distinct : generator.allAggregates.Nodup)
    {p : Nat}
    {kept : Row}
    (atIndex : (firsts (keyOf query.groupingAttr) table)[p]? = some kept)
    {aggregate : Aggregate}
    (member : aggregate ∈ generator.allAggregates) :
    ∃ record, (store.group aggregate.group.toNat)[p]? = some record ∧
      (aggregate.update ≠ .none → record aggregate.toVar =
        (admittedRows guards query table store.group aggregate.group.toNat kept).foldl
          aggregate.fieldStep .zero) := by
  have sameAttr := (Query.builtFrom built).groupingAttr_eq
  have parsed := Query.parsed_scanGenerator built
  have bounds := inF aggregate member
  have inGroup : aggregate.group = (aggregate.group.toNat : Int) := by omega
  have inBucket : aggregate ∈ generator.bucket aggregate.group.toNat :=
    List.mem_filter.mpr ⟨member, decide_eq_true inGroup⟩
  have records := scanned.groups aggregate.group.toNat (by omega)
  rw [sameAttr] at records
  refine ⟨_, by rw [records, List.getElem?_map, atIndex]; rfl, fun known => ?_⟩
  rw [finalRecord_toVar parsed distinct inBucket (parsed.ownField inGroup known),
    filter_selects built]

end MfQuery
