import MfQuery.Lib.Grouping
import MfQuery.Program.Accumulation

/-!
# No row is lost or counted twice

The scan of an MF program looks up the record of a row by its key. Over all
groups together, the rows admitted to the records of a grouping variable are
the rows its guard admits, each once. The counts of the groups therefore add
up to the number of admitted rows, and their sums add up to the sum over these
rows, modulo 64-bit arithmetic.
-/

namespace MfQuery

open Text

/-- The rows a scan admits, whatever their group. -/
def Guards.admittedTo
    (guards : Guards)
    (group : Nat → List Record)
    (i : Nat)
    (table : List Row) : List Row :=
  table.filter fun row => guards.admits i group (rowsOf (some row) none)

/-- Values of an aggregate in the records of its vector, added up. -/
def Aggregate.total (aggregate : Aggregate) (records : List Record) : Int :=
  (records.map fun record => (aggregate.readValue record).asInt).sum

/-- In an MF program every admitted row belongs to exactly one kept row. -/
theorem admittedRows_flatMap_perm
    {query : Query}
    (mf : query.emf = false)
    (guards : Guards)
    (table : List Row)
    (group : Nat → List Record)
    (i : Nat) :
    ((firsts (keyOf query.groupingAttr) table).flatMap
        (admittedRows guards query table group i)).Perm (guards.admittedTo group i table) := by
  have rows : admittedRows guards query table group i = fun kept => table.filter fun row =>
      decide (keyOf query.groupingAttr row = keyOf query.groupingAttr kept) &&
        guards.admits i group (rowsOf (some row) none) := by
    funext kept
    rw [admittedRows, mf, if_neg Bool.false_ne_true]
  rw [rows]
  exact Grouping.flatMap_firsts_perm _ _ table

/-! ## Adding up -/

theorem columnSum_flatMap
    {Kept : Type}
    (column : Text)
    (rows : Kept → List Row)
    (kepts : List Kept) :
    columnSum column (kepts.flatMap rows) =
      (kepts.map fun kept => columnSum column (rows kept)).sum := by
  induction kepts with
  | nil => rfl
  | cons kept kepts inductionHypothesis =>
      rw [List.flatMap_cons, columnSum, List.map_append, List.sum_append, List.map_cons,
        List.sum_cons, ← inductionHypothesis]
      rfl

theorem columnSum_perm
    {column : Text}
    {rows others : List Row}
    (permuted : rows.Perm others) :
    columnSum column rows = columnSum column others :=
  (permuted.map fun row : Row => (row column).asInt).sum_eq

/-- Reducing the summands does not change the reduced sum. -/
theorem wrap64_sum_map_wrap64
    {Entry : Type}
    (entries : List Entry)
    (value : Entry → Int) :
    wrap64 (entries.map fun entry => wrap64 (value entry)).sum =
      wrap64 (entries.map value).sum := by
  induction entries with
  | nil => rfl
  | cons entry entries inductionHypothesis =>
      unfold wrap64 at inductionHypothesis ⊢
      rw [List.map_cons, List.sum_cons, List.map_cons, List.sum_cons, Int.bmod_add_bmod,
        ← Int.add_bmod_bmod, inductionHypothesis, Int.add_bmod_bmod]

/-- The field of a sum holds it in 64-bit arithmetic. -/
theorem asInt_readValue_sum
    {aggregate : Aggregate}
    (named : aggregate.func = RefFunc.sum.text)
    {rows : List Row}
    (integers : IntColumn aggregate.column rows)
    {record : Record}
    (field : record aggregate.toVar = rows.foldl aggregate.fieldStep .zero) :
    (aggregate.readValue record).asInt = wrap64 (columnSum aggregate.column rows) := by
  have step : aggregate.fieldStep = fun value row => value.plus (row aggregate.column) := by
    funext value row
    simp only [Aggregate.fieldStep, RefFunc.update_eq named, RefFunc.update]
  rw [Aggregate.readValue, RefFunc.isAvg_eq named, field, step]
  exact foldl_plus rows integers

/-! ## Totals of the vectors -/

section Totals

variable {query : Query} {generator : ScanGenerator} {guards : Guards} {table : List Row}
  {store : Store} {aggregate : Aggregate}

/-- The records of a vector are those of the kept rows, in order. -/
theorem Scanned.total_eq
    (built : query.scanGenerator = some generator)
    (scanned : Scanned guards generator table store)
    (inRange : generator.GroupsInRange)
    (distinct : generator.allAggregates.Nodup)
    (member : aggregate ∈ generator.allAggregates)
    (known : aggregate.update ≠ .none)
    (value : List Row → Int)
    (reads : ∀ kept record, record aggregate.toVar =
        (admittedRows guards query table store.group aggregate.group.toNat kept).foldl
          aggregate.fieldStep .zero →
      (aggregate.readValue record).asInt =
        value (admittedRows guards query table store.group aggregate.group.toNat kept)) :
    aggregate.total (store.group aggregate.group.toNat) =
      ((firsts (keyOf query.groupingAttr) table).map fun kept =>
        value (admittedRows guards query table store.group aggregate.group.toNat kept)).sum := by
  have sameAttr := (Query.builtFrom built).groupingAttr_eq
  have bounds := inRange aggregate member
  have records := scanned.groups aggregate.group.toNat (by omega)
  rw [sameAttr] at records
  unfold Aggregate.total
  congr 1
  apply List.ext_getElem?
  intro p
  rw [List.getElem?_map, List.getElem?_map]
  cases atIndex : (firsts (keyOf query.groupingAttr) table)[p]? with
  | none =>
      rw [records, List.getElem?_map, atIndex]
      rfl
  | some kept =>
      obtain ⟨record, found, field⟩ :=
        scanned.exists_record built inRange distinct atIndex member
      rw [found, Option.map_some, Option.map_some, reads kept record (field known)]

end Totals

end MfQuery
