import MfQuery.Program.RowGuard
import MfQuery.Structures

/-!
# Row order

The table is fetched without an order. Reordering its rows changes the kept
rows, the positions of the groups and the order in which aggregates meet their
rows; none of this reaches the printed rows of an MF query whose plain columns
are its keys, as long as positions fit into an `int`.
-/

namespace MfQuery

open Text

/-! ## The printed rows -/

/-- A field as it is printed. -/
def Value.printed : Value → Text
  | zero => integerText 0
  | int value => integerText value
  | str text => text
  | avg count sum => integerText (avg count sum).average.asInt

/-- The printed line of a result row. -/
def printLine (fields : List Text) (entry : Record) : Text :=
  '|' :: fields.flatMap fun field => (entry field).printed ++ ['|']

/-- The result rows the emitted program prints. -/
def Query.output (query : Query) (table : List Row) : Option (List Text) := do
  let cols ← getCt query.groupingAttr query.columns
  let generator ← query.scanGenerator
  let program ← generator.program
  let fields ← query.selectAttribute.mapM printedField
  let machine ← program.runScans (cppInterp cols) table
  let final ← program.fill.run cols (cppHaving cols) (machine.store.mfStruct.length + 1)
    machine.store
  return final.vector.map (printLine fields)

/-! ## Aggregates do not mind the order of their rows -/

theorem Value.plus_comm
    (field : Value)
    (first second : Int) :
    (field.plus (.int first)).plus (.int second) = (field.plus (.int second)).plus (.int first) := by
  simp only [plus_int, asInt_int, wrap64, Int.bmod_add_bmod, int.injEq]
  rw [add_right_comm]

theorem Value.add_comm
    (field : Value)
    (first second : Int) :
    (field.add (.int first)).add (.int second) = (field.add (.int second)).add (.int first) := by
  simp only [add_int, asAvg_avg, wrap64, Int.bmod_add_bmod, avg.injEq, true_and]
  rw [add_right_comm]

theorem Value.takeLess_comm
    (field : Value)
    (first second : Int) :
    (field.takeLess (.int first)).takeLess (.int second) =
      (field.takeLess (.int second)).takeLess (.int first) := by
  simp only [takeLess]
  split_ifs <;> simp only [asInt_int] at * <;> first | rfl | (congr 1; omega)

theorem Value.takeGreater_comm
    (field : Value)
    (first second : Int) :
    (field.takeGreater (.int first)).takeGreater (.int second) =
      (field.takeGreater (.int second)).takeGreater (.int first) := by
  simp only [takeGreater]
  split_ifs <;> simp only [asInt_int] at * <;> first | rfl | (congr 1; omega)

theorem Aggregate.fieldStep_comm
    {aggregate : Aggregate}
    {first second : Row}
    {firstNumber secondNumber : Int}
    (firstStored : first aggregate.column = .int firstNumber)
    (secondStored : second aggregate.column = .int secondNumber)
    (value : Value) :
    aggregate.fieldStep (aggregate.fieldStep value first) second =
      aggregate.fieldStep (aggregate.fieldStep value second) first := by
  unfold fieldStep
  rw [firstStored, secondStored]
  cases aggregate.update with
  | avg => exact value.add_comm _ _
  | sum => exact value.plus_comm _ _
  | count => rfl
  | min => exact value.takeLess_comm _ _
  | max => exact value.takeGreater_comm _ _
  | none => rfl

/-- Updates of two aggregates for two rows commute: they write different
fields, or they are the same aggregate. -/
theorem Aggregate.apply_comm
    {aggregate other : Aggregate}
    (own : other.toVar = aggregate.toVar → other = aggregate)
    {first second : Row}
    {firstNumber secondNumber : Int}
    (firstStored : first aggregate.column = .int firstNumber)
    (secondStored : second aggregate.column = .int secondNumber)
    (record : Record) :
    aggregate.apply first (other.apply second record) =
      other.apply second (aggregate.apply first record) := by
  funext field
  by_cases sameVar : other.toVar = aggregate.toVar
  · have same := own sameVar
    subst other
    by_cases isField : field = aggregate.toVar
    · subst field
      simp only [apply_toVar]
      exact (fieldStep_comm firstStored secondStored _).symm
    · simp only [apply_of_ne isField]
  · by_cases isField : field = aggregate.toVar
    · subst field
      rw [aggregate.apply_toVar, apply_of_ne (Ne.symm sameVar), apply_of_ne (Ne.symm sameVar),
        aggregate.apply_toVar]
    · rw [apply_of_ne isField]
      by_cases isOther : field = other.toVar
      · subst field
        rw [other.apply_toVar, other.apply_toVar, apply_of_ne isField]
      · rw [apply_of_ne isOther, apply_of_ne isOther, apply_of_ne isField]

/-- What commutes with every update of a bucket commutes with all of them. -/
theorem applyAll_comm
    {bucket : List Aggregate}
    {row : Row}
    {update : Record → Record}
    (commutes : ∀ aggregate ∈ bucket, ∀ record,
      update (aggregate.apply row record) = aggregate.apply row (update record))
    (record : Record) :
    update (applyAll bucket row record) = applyAll bucket row (update record) := by
  induction bucket generalizing record with
  | nil => rfl
  | cons aggregate bucket inductionHypothesis =>
      have later := inductionHypothesis
        (fun other member => commutes other (List.mem_cons_of_mem _ member))
        (aggregate.apply row record)
      rw [applyAll_cons, Function.comp_apply, Function.comp_apply, later,
        commutes aggregate (List.mem_cons_self ..)]

section Permuted

variable {generator : ScanGenerator} {left right : List Row}

/-- The updates of a group for two rows commute. -/
theorem applyAll_right_comm
    (parsed : generator.Parsed)
    (integers : ∀ aggregate ∈ generator.allAggregates, IntColumn aggregate.column left)
    (i : Nat)
    {first second : Row}
    (firstMember : first ∈ left)
    (secondMember : second ∈ left)
    (record : Record) :
    applyAll (generator.bucket i) second (applyAll (generator.bucket i) first record) =
      applyAll (generator.bucket i) first (applyAll (generator.bucket i) second record) := by
  refine applyAll_comm (fun aggregate member current => ?_) record
  refine (applyAll_comm (fun other otherMember current => ?_) current).symm
  obtain ⟨inF, inGroup⟩ := List.mem_filter.mp member
  by_cases unknown : aggregate.update = .none
  · have idle (any : Record) : aggregate.apply first any = any := by
      simp [Aggregate.apply, unknown]
    rw [idle, idle]
  · obtain ⟨firstNumber, firstStored⟩ := integers aggregate inF first firstMember
    obtain ⟨secondNumber, secondStored⟩ := integers aggregate inF second secondMember
    exact Aggregate.apply_comm
      (parsed.ownField (of_decide_eq_true inGroup) unknown other otherMember)
      firstStored secondStored current

/-- Kept rows of the same key have the same plain records. -/
theorem plainRecord_eq_of_key
    {selectColumns groupingAttr : List Text}
    (keys : ∀ column ∈ selectColumns, column ∈ groupingAttr)
    {first second : Row}
    (sameKey : keyOf groupingAttr first = keyOf groupingAttr second) :
    plainRecord selectColumns first = plainRecord selectColumns second := by
  have pointwise : ∀ attr ∈ groupingAttr, first attr = second attr := by
    simpa [keyOf] using sameKey
  funext field
  unfold plainRecord
  split_ifs with member
  · exact pointwise field (keys field member)
  · rfl

/-- Kept rows of the same key end with the same records in a group, if the
guards look at nothing but rows. -/
theorem finalRecord_eq_of_perm
    {cols : List Ct}
    {lines : List Line}
    (mf : generator.emf = false)
    (parsed : generator.Parsed)
    (keys : ∀ column ∈ generator.selectColumns, column ∈ generator.groupingAttr)
    (integers : ∀ aggregate ∈ generator.allAggregates, IntColumn aggregate.column left)
    (permuted : left.Perm right)
    (leftGroup rightGroup : Nat → List Record)
    (i : Nat)
    {first second : Row}
    (sameKey : keyOf generator.groupingAttr first = keyOf generator.groupingAttr second) :
    finalRecord (rowGuards cols lines) generator left leftGroup i first =
      finalRecord (rowGuards cols lines) generator right rightGroup i second := by
  have sameRows : (rowGuards cols lines).selects generator leftGroup i first =
      (rowGuards cols lines).selects generator rightGroup i second := by
    funext row
    simp only [Guards.selects, mf, Bool.false_eq_true, if_false, keySelects, sameKey]
    rfl
  unfold finalRecord
  rw [plainRecord_eq_of_key keys sameKey, sameRows]
  apply (permuted.filter _).foldl_eq'
  intro row member other otherMember record
  exact applyAll_right_comm parsed integers i (List.mem_of_mem_filter member)
    (List.mem_of_mem_filter otherMember) record

end Permuted

/-! ## Results by key -/

section Results

variable {generator : ScanGenerator} {program : Program} {cols : List Ct} {table : List Row}
  {guards : Guards} {store : Store}

/-- The record of a kept row is found at the position of its result entry. -/
theorem Scanned.getElem?_entryIndex
    (scanned : Scanned guards generator table store)
    (keyed : Keyed generator cols table)
    {kept : Row}
    (isKept : kept ∈ firsts (keyOf generator.groupingAttr) table)
    {k : Nat}
    (inRange : k ≤ generator.noGroupingVars) :
    (store.group k)[FillPass.entryIndex generator.groupingAttr store
        (plainRecord generator.selectColumns kept)]? =
      some (finalRecord guards generator table store.group k kept) := by
  have copy : AgreeOn generator.selectColumns kept (plainRecord generator.selectColumns kept) :=
    fun column member => by simp [plainRecord, member]
  obtain ⟨position, inside, rfl⟩ := List.mem_iff_getElem.mp isKept
  have index := FirstOccurrence.keyIndex_getElem (keyOf generator.groupingAttr)
    (FirstOccurrence.nodup_map_firsts _ table) inside
  rw [List.get_eq_getElem] at index
  rw [FillPass.entryIndex, keyed.keyOf_eq copy, scanned.uniques_eq, index,
    scanned.groups k inRange, List.getElem?_map, List.getElem?_eq_getElem inside]
  rfl

/-- There are no vectors beyond the last group. -/
theorem runScans_group_eq_nil
    {interp : Interp}
    (compiled : generator.Compiled program)
    {machine : Machine}
    (finished : program.runScans interp table = some machine)
    {k : Nat}
    (beyond : generator.noGroupingVars < k) :
    machine.store.group k = [] := by
  obtain ⟨ready, prelim, readyStore, -, -⟩ := generator.exec_prelimStmt interp table
  simp only [Program.runScans, compiled.prelim_eq, prelim, Option.bind_some] at finished
  have all := compiled.writesOnly_take program.scans.length
  rw [List.take_length] at all
  rw [← exec_block] at finished
  have unchanged := (exec_keeps all finished).group_eq k
    (by rw [compiled.length_scans]; omega)
  rw [unchanged, readyStore]
  exact if_neg (by omega)

/-- The line printed for a kept row, if its group is accepted. -/
def resultLine
    (generator : ScanGenerator)
    (fields : List Text)
    (holds : (Nat → Option Record) → Bool)
    (store : Store)
    (kept : Row) : Option Text :=
  let entry := plainRecord generator.selectColumns kept
  let index := FillPass.entryIndex generator.groupingAttr store entry
  if FillPass.accepted generator.groupingAttr store holds entry then
    some (printLine fields
      (FillPass.filled generator.selectAggregates store.group index entry))
  else none

/-- Filling looks only at the records at the position. -/
theorem FillPass.filled_congr
    {leftGroup rightGroup : Nat → List Record}
    {leftIndex rightIndex : Nat}
    (same : ∀ k, (leftGroup k)[leftIndex]? = (rightGroup k)[rightIndex]?)
    (aggregates : List Aggregate)
    (entry : Record) :
    FillPass.filled aggregates leftGroup leftIndex entry =
      FillPass.filled aggregates rightGroup rightIndex entry := by
  unfold FillPass.filled
  congr 1
  funext current aggregate
  rw [List.getD_eq_getElem?_getD, List.getD_eq_getElem?_getD, same]

/-- The line of a kept row depends on its plain columns and on the records at
its position. -/
theorem resultLine_congr
    {leftStore rightStore : Store}
    {first second : Row}
    (plain : plainRecord generator.selectColumns first =
      plainRecord generator.selectColumns second)
    (records : ∀ k,
      (leftStore.group k)[FillPass.entryIndex generator.groupingAttr leftStore
        (plainRecord generator.selectColumns first)]? =
      (rightStore.group k)[FillPass.entryIndex generator.groupingAttr rightStore
        (plainRecord generator.selectColumns second)]?)
    (fields : List Text)
    (holds : (Nat → Option Record) → Bool) :
    resultLine generator fields holds leftStore first =
      resultLine generator fields holds rightStore second := by
  unfold resultLine FillPass.accepted
  simp only [funext records, FillPass.filled_congr records generator.selectAggregates]
  rw [plain]

end Results

/-! ## Permuted tables -/

/-- An MF query over literals whose plain columns are its keys, with its
program. -/
structure OrderFree
    (query : Query)
    (cols : List Ct)
    (generator : ScanGenerator)
    (program : Program)
    (lines : List Line) : Prop where
  built : query.scanGenerator = some generator
  compiled : generator.program = some program
  key_types : getCt query.groupingAttr query.columns = some cols
  literal : LiteralLines query lines
  plain_iff : ∀ column, column ∈ getSelectColumns query.selectAttribute ↔
    column ∈ query.groupingAttr
  selected : ∀ aggregate ∈ generator.selectAggregates, aggregate ∈ generator.allAggregates

/-- What such a query needs of its table: typed keys, few groups, and
aggregates over integer columns. -/
structure OrderFree.Table
    (query : Query)
    (cols : List Ct)
    (generator : ScanGenerator)
    (table : List Row) : Prop where
  typed : KeyTyped cols table
  few : FewKeys query.groupingAttr table
  integers : ∀ aggregate ∈ generator.allAggregates, IntColumn aggregate.column table

/-- In every completed run the emitted HAVING condition is a predicate of the
aggregates. -/
def Program.HavingTells
    (program : Program)
    (cols : List Ct)
    (holds : (Nat → Option Record) → Bool)
    (table : List Row) : Prop :=
  ∀ machine, program.runScans (cppInterp cols) table = some machine →
    program.fill.TellsAt (cppHaving cols) machine.store holds

section Output

variable {query : Query} {cols : List Ct} {generator : ScanGenerator} {program : Program}
  {lines : List Line} {holds : (Nat → Option Record) → Bool} {table left right : List Row}

theorem OrderFree.Table.perm
    (ready : OrderFree.Table query cols generator left)
    (permuted : left.Perm right) :
    OrderFree.Table query cols generator right where
  typed := ready.typed.subset fun row member => permuted.mem_iff.mpr member
  few := by
    unfold FewKeys
    rw [← FirstOccurrence.length_firsts_of_perm _ permuted]
    exact ready.few
  integers aggregate inF row member :=
    ready.integers aggregate inF row (permuted.mem_iff.mpr member)

theorem OrderFree.keyed
    (orderFree : OrderFree query cols generator program lines)
    (ready : OrderFree.Table query cols generator table) :
    Keyed generator cols table :=
  Query.KeyedBy.keyed
    ⟨orderFree.key_types, ready.typed, fun attr member => (orderFree.plain_iff attr).mpr member⟩
    orderFree.built

/-- Where all guards have truth values, the output lists the lines of the kept
rows. -/
theorem OrderFree.output_eq
    (orderFree : OrderFree query cols generator program lines)
    (ready : OrderFree.Table query cols generator table)
    (tells : program.HavingTells cols holds table)
    (defined : Defined cols lines query.noGroupingVars table) :
    ∃ store, Scanned (rowGuards cols lines) generator table store ∧
      (∀ k > generator.noGroupingVars, store.group k = []) ∧
      query.output table = (query.selectAttribute.mapM printedField).map fun fields =>
        (firsts (keyOf generator.groupingAttr) table).filterMap
          (resultLine generator fields holds store) := by
  have keyed := orderFree.keyed ready
  have keyedHere : Keyed generator (cppInterp cols).cols table := keyed
  have shape := ScanGenerator.compiled_of_program orderFree.compiled
  have sameAttr := (Query.builtFrom orderFree.built).groupingAttr_eq
  have few : FewKeys generator.groupingAttr table := sameAttr ▸ ready.few
  have meant := orderFree.literal.meantBy orderFree.built defined
  obtain ⟨machine, finished, scanned⟩ := runScans_scanned keyedHere few meant shape
  have inRange : ∀ aggregate ∈ program.fill.selectAggregates,
      aggregate.group.toNat ≤ generator.noGroupingVars := by
    rw [shape.aggregates_eq]
    intro aggregate member
    have bounds := shape.inRange aggregate (orderFree.selected aggregate member)
    omega
  obtain ⟨final, ran, -, -, vector⟩ := FillPass.run_eq keyed few scanned.toInStep
    shape.attributes_eq inRange (tells machine finished) (Nat.lt_succ_self _)
  refine ⟨machine.store, scanned, fun k beyond => runScans_group_eq_nil shape finished beyond,
    ?_⟩
  simp only [Query.output, orderFree.key_types, orderFree.built, orderFree.compiled, finished,
    ran, Option.bind_eq_bind, Option.bind_some]
  cases query.selectAttribute.mapM printedField with
  | none => rfl
  | some fields =>
      simp only [Option.bind_some, Option.map_some, Option.pure_def, vector, List.map_map,
        shape.aggregates_eq]
      rw [scanned.results_eq, List.filter_map, List.map_map, ← List.filterMap_eq_map,
        List.filterMap_filter]
      rfl

/-- If the program completes on one order of the rows, it completes on every
other and prints the same rows. -/
theorem OrderFree.exists_output_perm
    (orderFree : OrderFree query cols generator program lines)
    (ready : OrderFree.Table query cols generator left)
    (permuted : left.Perm right)
    (leftTells : program.HavingTells cols holds left)
    (rightTells : program.HavingTells cols holds right)
    {rows : List Text}
    (printed : query.output left = some rows) :
    ∃ others, query.output right = some others ∧ rows.Perm others := by
  have shape := ScanGenerator.compiled_of_program orderFree.compiled
  have leftDefined : Defined cols lines query.noGroupingVars left := by
    simp only [Query.output, orderFree.key_types, orderFree.built, orderFree.compiled,
      Option.bind_eq_bind, Option.bind_some, Option.bind_eq_some_iff] at printed
    obtain ⟨_, -, machine, finished, -⟩ := printed
    exact orderFree.literal.defined orderFree.built shape finished
  have rightDefined : Defined cols lines query.noGroupingVars right :=
    fun i below line found row member =>
      leftDefined i below line found row (permuted.mem_iff.mpr member)
  obtain ⟨leftStore, leftScanned, leftNil, leftOutput⟩ :=
    orderFree.output_eq ready leftTells leftDefined
  obtain ⟨rightStore, rightScanned, rightNil, rightOutput⟩ :=
    orderFree.output_eq (ready.perm permuted) rightTells rightDefined
  rw [leftOutput, Option.map_eq_some_iff] at printed
  obtain ⟨fields, isFields, rfl⟩ := printed
  rw [isFields] at rightOutput
  refine ⟨_, rightOutput, ?_⟩
  have keyed := orderFree.keyed ready
  have fromQuery : generator.emf = false ∧
      ∀ column ∈ generator.selectColumns, column ∈ generator.groupingAttr := by
    obtain ⟨_, _, _, -, -, -, rfl⟩ :=
      (query.scanGenerator_eq_some_iff generator).mp orderFree.built
    exact ⟨orderFree.literal.mf, fun column member => (orderFree.plain_iff column).mp member⟩
  apply FirstOccurrence.filterMap_firsts_perm _ permuted
  intro first firstKept second secondKept sameKey
  refine resultLine_congr (plainRecord_eq_of_key fromQuery.2 sameKey) (fun k => ?_) fields holds
  by_cases inRange : k ≤ generator.noGroupingVars
  · rw [leftScanned.getElem?_entryIndex keyed firstKept inRange,
      rightScanned.getElem?_entryIndex (orderFree.keyed (ready.perm permuted)) secondKept inRange,
      finalRecord_eq_of_perm fromQuery.1 keyed.parsed fromQuery.2 ready.integers permuted
        leftStore.group rightStore.group k sameKey]
  · rw [leftNil k (by omega), rightNil k (by omega)]
    rfl

end Output

/-- The line of the running example. -/
def saleLine : Line := ⟨⟨1, "quant", .gt, .int 5⟩, []⟩

theorem literalLines_saleQuery : LiteralLines (saleQuery false) [saleLine] where
  mf := rfl
  named := namedColumns_saleColumns
  written := rfl
  wellFormed := by
    intro line member
    rw [List.mem_singleton.mp member]
    refine ⟨fun atom inLine => ?_, fun atom inLine => ?_⟩
    · rw [saleLine, Line.atoms, List.map_nil, List.mem_singleton] at inLine
      subst atom
      exact ⟨by decide, ⟨⟨"quant", .int⟩, by decide, rfl⟩, trivial⟩
    · rw [saleLine, Line.atoms, List.map_nil, List.mem_singleton] at inLine
      subst atom
      exact trivial
  literals := by
    intro line member atom inLine
    rw [List.mem_singleton.mp member, saleLine, Line.atoms, List.map_nil, List.mem_singleton]
      at inLine
    subst atom
    exact trivial

/-- What the query for the values of one column prints: the rows whose
position, taken as an `int`, is not `-1`. -/
theorem output_keyQuery
    {table : List Row}
    (keyRows : KeyRows table) :
    keyQuery.output table = some ((table.filter fun row =>
      decide (wrap32 (keyIndex (keyOf ["k"]) table (keyOf ["k"] row)) ≠ -1)).map fun row =>
        printLine ["k"] (plainRecord ["k"] row)) := by
  obtain ⟨machine, finished, inStep⟩ :=
    runScans_keyProgram (fun rows group => guard_zero keyCols rows group) rfl keyRows
  have entries : machine.store.mfStruct.length = table.length := by
    have kept : firsts (keyOf keyGenerator.groupingAttr) table = table :=
      FirstOccurrence.firsts_eq_self _ keyRows.nodup
    rw [inStep.results_eq, kept, List.length_map]
  obtain ⟨final, ran, vector⟩ := run_keyProgram keyRows inStep (Nat.lt_succ_self _)
  have sameBody : keyProgram.fill.body keyCols (cppHaving keyCols) =
      keyProgram.fill.body keyCols (.ofPredicate fun _ => true) := rfl
  have ranHere : keyProgram.fill.run keyCols (cppHaving keyCols)
      (machine.store.mfStruct.length + 1) machine.store = some final := by
    rw [FillPass.run, sameBody, entries]
    exact ran
  have types : getCt keyQuery.groupingAttr keyQuery.columns = some keyCols := rfl
  have fields : keyQuery.selectAttribute.mapM printedField =
      some (["k"] : List Text) := rfl
  simp only [Query.output, types, scanGenerator_keyQuery, program_keyGenerator, fields, finished,
    ranHere, Option.bind_eq_bind, Option.bind_some, vector, List.map_map]
  rfl

theorem printLine_keyRow (value : Nat) :
    printLine ["k"] (plainRecord ["k"] (keyRow value)) = '|' :: (numeral value ++ ['|']) := by
  have negative : ¬(value : Int) < 0 := by omega
  simp [printLine, plainRecord, keyRow, Value.printed, integerText]

theorem KeyRows.reverse
    {table : List Row}
    (keyRows : KeyRows table) :
    KeyRows table.reverse where
  rows row member := keyRows.rows row (List.mem_reverse.mp member)
  nodup := by
    rw [List.map_reverse, List.nodup_reverse]
    exact keyRows.nodup

end MfQuery
