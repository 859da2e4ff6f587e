import MfQuery.Meaning.Source

/-!
# Emitted programs as grouping queries

Where the guards of a program read nothing but the loop rows and its HAVING
condition is a predicate of the records at a position, the emitted program is
a grouping query: its features are the rows the guards select, and the result
of a kept row comes from its plain record folded over these rows.
-/

namespace MfQuery

open Text

/-- The guards do not read the group vectors. -/
def Guards.ReadRows (guards : Guards) : Prop :=
  ∀ i group rows, guards.admits i group rows = guards.admits i (fun _ => []) rows

namespace ScanGenerator

/-- The record of group `k` after the rows selected for a kept row. -/
def accumulated
    (generator : ScanGenerator)
    (rows : Nat → List Row)
    (kept : Row)
    (k : Nat) : Option Record :=
  if k ≤ generator.noGroupingVars then
    some ((rows k).foldl (fun record row => applyAll (generator.bucket k) row record)
      (plainRecord generator.selectColumns kept))
  else none

/-- The result record of a kept row. -/
def resultRecord
    (generator : ScanGenerator)
    (records : Nat → Option Record)
    (kept : Row) : Record :=
  FillPass.filled generator.selectAggregates (fun k => (records k).toList) 0
    (plainRecord generator.selectColumns kept)

/-- The grouping query an emitted program computes. -/
def grouping
    (generator : ScanGenerator)
    (guards : Guards)
    (holds : (Nat → Option Record) → Bool)
    (fields : List Text) : Grouping Row (List Value) Text where
  key := keyOf generator.groupingAttr
  selects := guards.selects generator fun _ => []
  result kept rows :=
    if holds (generator.accumulated rows kept) then
      some (printLine fields (generator.resultRecord (generator.accumulated rows kept) kept))
    else none

end ScanGenerator

section Output

variable {query : Query} {generator : ScanGenerator} {program : Program} {cols : List Ct}
  {table : List Row} {guards : Guards} {store : Store}

theorem Guards.ReadRows.selects_eq
    (readRows : guards.ReadRows)
    (generator : ScanGenerator)
    (group : Nat → List Record) :
    guards.selects generator group = guards.selects generator fun _ => [] := by
  funext i kept row
  simp only [Guards.selects, readRows i group]

/-- The records at the position of a kept row. -/
theorem Scanned.getElem?_of_kept
    (scanned : Scanned guards generator table store)
    (beyond : ∀ k > generator.noGroupingVars, store.group k = [])
    (readRows : guards.ReadRows)
    {pos : Nat}
    {kept : Row}
    (atPos : (firsts (keyOf generator.groupingAttr) table)[pos]? = some kept)
    (k : Nat) :
    (store.group k)[pos]? = generator.accumulated
      (fun i => table.filter (guards.selects generator (fun _ => []) i kept)) kept k := by
  unfold ScanGenerator.accumulated
  split_ifs with inRange
  · rw [scanned.groups k inRange, List.getElem?_map, atPos, Option.map_some, finalRecord,
      readRows.selects_eq]
  · rw [beyond k (by omega), List.getElem?_nil]

/-- They are found where the last pass looks. -/
theorem Scanned.getElem?_eq_accumulated
    (scanned : Scanned guards generator table store)
    (beyond : ∀ k > generator.noGroupingVars, store.group k = [])
    (readRows : guards.ReadRows)
    (keyed : Keyed generator cols table)
    {kept : Row}
    (isKept : kept ∈ firsts (keyOf generator.groupingAttr) table)
    (k : Nat) :
    (store.group k)[FillPass.entryIndex generator.groupingAttr store
        (plainRecord generator.selectColumns kept)]? =
      generator.accumulated
        (fun i => table.filter (guards.selects generator (fun _ => []) i kept)) kept k := by
  unfold ScanGenerator.accumulated
  split_ifs with inRange
  · rw [scanned.getElem?_entryIndex keyed isKept inRange, finalRecord, readRows.selects_eq]
  · rw [beyond k (by omega), List.getElem?_nil]

/-- The line printed for a kept row is its result in the grouping query. -/
theorem Scanned.resultLine_eq
    (scanned : Scanned guards generator table store)
    (beyond : ∀ k > generator.noGroupingVars, store.group k = [])
    (readRows : guards.ReadRows)
    (keyed : Keyed generator cols table)
    {kept : Row}
    (isKept : kept ∈ firsts (keyOf generator.groupingAttr) table)
    (fields : List Text)
    (holds : (Nat → Option Record) → Bool) :
    resultLine generator fields holds store kept =
      (generator.grouping guards holds fields).line table kept := by
  have records := scanned.getElem?_eq_accumulated beyond readRows keyed isKept
  have filled : FillPass.filled generator.selectAggregates store.group
      (FillPass.entryIndex generator.groupingAttr store
        (plainRecord generator.selectColumns kept))
      (plainRecord generator.selectColumns kept) =
        generator.resultRecord (generator.accumulated
          (fun i => table.filter (guards.selects generator (fun _ => []) i kept)) kept) kept := by
    refine FillPass.filled_congr (fun k => ?_) generator.selectAggregates _
    rw [records k]
    cases generator.accumulated _ kept k <;> rfl
  simp only [resultLine, FillPass.accepted, funext records, filled]
  rfl

/-- The emitted program prints the answer of its grouping query. -/
theorem output_eq_grouping
    (built : query.scanGenerator = some generator)
    (compiled : generator.program = some program)
    (keyedBy : query.KeyedBy cols table)
    (few : FewKeys query.groupingAttr table)
    (means : guards.MeantBy (cppInterp cols) generator table)
    (readRows : guards.ReadRows)
    (selected : ∀ aggregate ∈ generator.selectAggregates, aggregate ∈ generator.allAggregates)
    {holds : (Nat → Option Record) → Bool}
    (tells : ∀ store, Scanned guards generator table store →
      (∀ k > generator.noGroupingVars, store.group k = []) →
        program.fill.TellsAt (cppHaving cols) store holds) :
    query.output table = (query.selectAttribute.mapM printedField).map fun fields =>
      (generator.grouping guards holds fields).answer table := by
  have keyed : Keyed generator (cppInterp cols).cols table := keyedBy.keyed built
  have shape := ScanGenerator.compiled_of_program compiled
  have fewHere : FewKeys generator.groupingAttr table := (Query.builtFrom built).groupingAttr_eq ▸ few
  obtain ⟨machine, finished, scanned⟩ := runScans_scanned keyed fewHere means shape
  have beyond : ∀ k > generator.noGroupingVars, machine.store.group k = [] :=
    fun k large => runScans_group_eq_nil shape finished large
  have inRange : ∀ aggregate ∈ program.fill.selectAggregates,
      aggregate.group.toNat ≤ generator.noGroupingVars := by
    rw [shape.aggregates_eq]
    intro aggregate member
    have bounds := shape.inRange aggregate (selected aggregate member)
    omega
  obtain ⟨final, ran, -, -, vector⟩ := FillPass.run_eq keyed fewHere scanned.toInStep
    shape.attributes_eq inRange (tells machine.store scanned beyond) (Nat.lt_succ_self _)
  have ranHere : program.fill.run cols (cppHaving cols) (machine.store.mfStruct.length + 1)
      machine.store = some final := ran
  simp only [Query.output, keyedBy.key_types, built, compiled, finished, ranHere,
    Option.bind_eq_bind, Option.bind_some]
  cases query.selectAttribute.mapM printedField with
  | none => rfl
  | some fields =>
      simp only [Option.bind_some, Option.map_some, Option.pure_def, vector, List.map_map,
        shape.aggregates_eq]
      rw [scanned.results_eq, List.filter_map, List.map_map, ← List.filterMap_eq_map,
        List.filterMap_filter]
      congr 1
      apply List.filterMap_congr
      intro kept isKept
      exact scanned.resultLine_eq beyond readRows keyed isKept fields holds

end Output

end MfQuery
