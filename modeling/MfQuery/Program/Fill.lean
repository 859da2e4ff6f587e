import MfQuery.Lib.EraseLoop
import MfQuery.Program.Accumulation

/-!
# The last pass

The last pass walks the result vector, erases the entries whose group fails
the HAVING condition and copies the selected aggregates into the others. Since
erasing shifts the entries away from the group vectors, the position of a
group is looked up by key for every entry.
-/

namespace MfQuery

open Text

/-- A meaning of HAVING texts: evaluated at a looked-up position on the group
vectors, which it may change. -/
abbrev Having := Text → Int → (Nat → List Record) → Option (Bool × (Nat → List Record))

/-- A HAVING condition that is a predicate of the records at the position. -/
def Having.ofPredicate (holds : (Nat → Option Record) → Bool) : Having :=
  fun _ pos group => some (holds fun k => (group k)[toSizeT pos]?, group)

namespace FillPass

/-- Copy the selected aggregates at a position into a result record. -/
def copyAggregates
    (aggregates : List Aggregate)
    (group : Nat → List Record)
    (pos : Nat)
    (entry : Record) : Option Record :=
  aggregates.foldlM (fun current aggregate =>
    (group aggregate.group.toNat)[pos]?.map fun record =>
      current.set aggregate.toABSVar (aggregate.readValue record)) entry

/-- Body of the last pass: erase the entry (`none`) or fill it. -/
def body
    (fill : FillPass)
    (cols : List Ct)
    (having : Having)
    (group : Nat → List Record)
    (entry : Record) : Option ((Nat → List Record) × Option Record) :=
  let pos := vfind cols (group 0) (keyOf fill.groupingAttr entry)
  (having fill.having pos group).bind fun (accepted, group) =>
    if !accepted then some (group, none)
    else if pos = -1 then some (group, none)
    else (copyAggregates fill.selectAggregates group (toSizeT pos) entry).map fun filled =>
      (group, some filled)

/-- The last pass over the result vector. -/
def run
    (fill : FillPass)
    (cols : List Ct)
    (having : Having)
    (fuel : Nat)
    (store : Store) : Option (EraseLoop (Nat → List Record) Record) :=
  EraseLoop.run (fill.body cols having) fuel (.start store.group store.mfStruct)

/-! ## Filled entries -/

/-- A result record with the selected aggregates of a position. -/
def filled
    (aggregates : List Aggregate)
    (group : Nat → List Record)
    (pos : Nat)
    (entry : Record) : Record :=
  aggregates.foldl (fun current aggregate =>
    current.set aggregate.toABSVar
      (aggregate.readValue ((group aggregate.group.toNat).getD pos calloc))) entry

theorem copyAggregates_eq
    {aggregates : List Aggregate}
    {group : Nat → List Record}
    {pos : Nat}
    (inside : ∀ aggregate ∈ aggregates, pos < (group aggregate.group.toNat).length)
    (entry : Record) :
    copyAggregates aggregates group pos entry = some (filled aggregates group pos entry) := by
  induction aggregates generalizing entry with
  | nil => rfl
  | cons aggregate aggregates inductionHypothesis =>
      have here := inside aggregate (List.mem_cons_self ..)
      have later := inductionHypothesis
        fun other member => inside other (List.mem_cons_of_mem _ member)
      simp only [copyAggregates, filled] at later ⊢
      rw [List.foldlM_cons, List.getElem?_eq_getElem here]
      simp [later, List.getD_eq_getElem?_getD, List.getElem?_eq_getElem here]

/-- Filling leaves every other field alone. -/
theorem filled_of_ne
    {aggregates : List Aggregate}
    {field : Text}
    (different : ∀ aggregate ∈ aggregates, field ≠ aggregate.toABSVar)
    (group : Nat → List Record)
    (pos : Nat)
    (entry : Record) :
    filled aggregates group pos entry field = entry field := by
  induction aggregates generalizing entry with
  | nil => rfl
  | cons aggregate aggregates inductionHypothesis =>
      have later := inductionHypothesis
        (fun other member => different other (List.mem_cons_of_mem _ member))
        (entry.set aggregate.toABSVar
          (aggregate.readValue ((group aggregate.group.toNat).getD pos calloc)))
      rw [Record.set_of_ne (different aggregate (List.mem_cons_self ..))] at later
      exact later

theorem filled_plain
    {field : Text}
    (plain : '_' ∉ field)
    (aggregates : List Aggregate)
    (group : Nat → List Record)
    (pos : Nat)
    (entry : Record) :
    filled aggregates group pos entry field = entry field := by
  refine filled_of_ne (fun aggregate _ equal => ?_) group pos entry
  rw [equal] at plain
  exact plain aggregate.underscore_mem_toABSVar

/-- A selected aggregate with a result field of its own gets the value of its
group at the position. -/
theorem filled_toABSVar
    {aggregates : List Aggregate}
    {aggregate : Aggregate}
    (member : aggregate ∈ aggregates)
    (own : ∀ other ∈ aggregates, other.toABSVar = aggregate.toABSVar → other = aggregate)
    (group : Nat → List Record)
    (pos : Nat)
    (entry : Record) :
    filled aggregates group pos entry aggregate.toABSVar =
      aggregate.readValue ((group aggregate.group.toNat).getD pos calloc) := by
  induction aggregates generalizing entry with
  | nil => cases member
  | cons first aggregates inductionHypothesis =>
      by_cases later : aggregate ∈ aggregates
      · exact inductionHypothesis later
          (fun other inside => own other (List.mem_cons_of_mem _ inside)) _
      · have isFirst : aggregate = first := by
          rcases List.mem_cons.mp member with same | inside
          · exact same
          · exact (later inside).elim
        subst first
        have different : ∀ other ∈ aggregates, aggregate.toABSVar ≠ other.toABSVar :=
          fun other inside equal =>
            later (own other (List.mem_cons_of_mem _ inside) equal.symm ▸ inside)
        have kept := filled_of_ne different group pos
          (entry.set aggregate.toABSVar
            (aggregate.readValue ((group aggregate.group.toNat).getD pos calloc)))
        rw [Record.set_self] at kept
        exact kept

/-! ## The pass as a whole -/

/-- Position of the key of an entry among the kept rows. -/
def entryIndex (groupingAttr : List Text) (store : Store) (entry : Record) : Nat :=
  keyIndex (keyOf groupingAttr) store.uniques (keyOf groupingAttr entry)

/-- The group of an entry satisfies the HAVING predicate. -/
def accepted
    (groupingAttr : List Text)
    (store : Store)
    (holds : (Nat → Option Record) → Bool)
    (entry : Record) : Bool :=
  holds fun k => (store.group k)[entryIndex groupingAttr store entry]?

/-- In a state, a HAVING condition is a predicate of the records at a
position. -/
def TellsAt
    (fill : FillPass)
    (having : Having)
    (store : Store)
    (holds : (Nat → Option Record) → Bool) : Prop :=
  ∀ pos < store.uniques.length,
    having fill.having (pos : Nat) store.group =
      some (holds fun k => (store.group k)[pos]?, store.group)

theorem tellsAt_ofPredicate
    (fill : FillPass)
    {store : Store}
    (few : store.uniques.length < 2 ^ 31)
    (holds : (Nat → Option Record) → Bool) :
    fill.TellsAt (.ofPredicate holds) store holds := by
  intro pos inside
  have size : toSizeT pos = pos := by
    unfold toSizeT
    omega
  rw [Having.ofPredicate, size]

/-- What the body does with an entry of the result vector. -/
theorem body_eq
    {generator : ScanGenerator}
    {cols : List Ct}
    {table : List Row}
    {store : Store}
    (keyed : Keyed generator cols table)
    (few : FewKeys generator.groupingAttr table)
    (inStep : InStep generator table store)
    {fill : FillPass}
    (attributes : fill.groupingAttr = generator.groupingAttr)
    (inRange : ∀ aggregate ∈ fill.selectAggregates,
      aggregate.group.toNat ≤ generator.noGroupingVars)
    {having : Having}
    {holds : (Nat → Option Record) → Bool}
    (tells : fill.TellsAt having store holds)
    {entry : Record}
    (member : entry ∈ store.mfStruct) :
    fill.body cols having store.group entry =
      some (store.group,
        if accepted generator.groupingAttr store holds entry then
          some (filled fill.selectAggregates store.group
            (entryIndex generator.groupingAttr store entry) entry)
        else none) := by
  obtain ⟨found, inside⟩ := inStep.vfind_eq keyed few (Nat.zero_le _) (.inr member)
  have length : store.uniques.length < 2 ^ 31 := by
    rw [inStep.uniques_eq]
    exact few
  have size : toSizeT (keyIndex (keyOf generator.groupingAttr) store.uniques
      (keyOf generator.groupingAttr entry)) = entryIndex generator.groupingAttr store entry := by
    unfold toSizeT entryIndex
    omega
  have nonneg : ((keyIndex (keyOf generator.groupingAttr) store.uniques
      (keyOf generator.groupingAttr entry) : Nat) : Int) ≠ -1 := by omega
  have inGroups : ∀ aggregate ∈ fill.selectAggregates,
      entryIndex generator.groupingAttr store entry <
        (store.group aggregate.group.toNat).length := by
    intro aggregate selected
    rw [inStep.lockstep.length_group (inRange aggregate selected)]
    exact inside
  have copied := copyAggregates_eq inGroups entry
  have told : having fill.having (keyIndex (keyOf generator.groupingAttr) store.uniques
      (keyOf generator.groupingAttr entry) : Nat) store.group =
        some (accepted generator.groupingAttr store holds entry, store.group) :=
    tells _ inside
  simp only [body, attributes, found, told, Option.bind_some, size, copied]
  cases accepted generator.groupingAttr store holds entry with
  | false => rfl
  | true => simp [nonneg]

/-- The pass ends, looks at every entry once, and filters and fills. -/
theorem run_eq
    {generator : ScanGenerator}
    {cols : List Ct}
    {table : List Row}
    {store : Store}
    (keyed : Keyed generator cols table)
    (few : FewKeys generator.groupingAttr table)
    (inStep : InStep generator table store)
    {fill : FillPass}
    (attributes : fill.groupingAttr = generator.groupingAttr)
    (inRange : ∀ aggregate ∈ fill.selectAggregates,
      aggregate.group.toNat ≤ generator.noGroupingVars)
    {having : Having}
    {holds : (Nat → Option Record) → Bool}
    (tells : fill.TellsAt having store holds)
    {fuel : Nat}
    (enough : store.mfStruct.length < fuel) :
    ∃ final, fill.run cols having fuel store = some final ∧
      final.examined = store.mfStruct ∧ final.state = store.group ∧
      final.vector = (store.mfStruct.filter (accepted generator.groupingAttr store holds)).map
        fun entry => filled fill.selectAggregates store.group
          (entryIndex generator.groupingAttr store entry) entry := by
  have ran := EraseLoop.run_eq
    (fun entry member => body_eq keyed few inStep attributes inRange tells member) enough
  refine ⟨_, ran, rfl, rfl, ?_⟩
  rw [← List.filterMap_eq_map, List.filterMap_filter]
  rfl

end FillPass

/-- More than one sale. -/
def severalSales (records : Nat → Option Record) : Bool :=
  match records 0 with
  | some record => decide (1 < (record "count_quant").asInt)
  | none => false

/-- A query for the values of one column. -/
def keyQuery : Query where
  columns := [⟨"k", .int⟩]
  selectAttribute := ["k"]
  noGroupingVars := 0
  groupingAttr := ["k"]
  fVect := []
  selectCondVect := []
  having := []
  emf := false

/-- Its scan generator. -/
def keyGenerator : ScanGenerator :=
  ⟨0, [⟨"k", .int⟩], ["k"], [], [], [], [], ["k"], false⟩

theorem scanGenerator_keyQuery : keyQuery.scanGenerator = some keyGenerator := rfl

/-- Its program. -/
def keyProgram : Program where
  prelim := keyGenerator.prelimStmt
  scans := [keyGenerator.scanStmt 0 [] "true"]
  fill := ⟨["k"], "true", []⟩

theorem program_keyGenerator : keyGenerator.program = some keyProgram := rfl

/-- The type of its key. -/
def keyCols : List Ct := [⟨"k", .int64⟩]

/-- A row with one value. -/
def keyRow (value : Nat) : Row := fun _ => .int value

/-- Rows of pairwise different keys. -/
structure KeyRows (table : List Row) : Prop where
  rows : ∀ row ∈ table, ∃ value, row = keyRow value
  nodup : (table.map (keyOf ["k"])).Nodup

theorem KeyRows.keyed
    {table : List Row}
    (keyRows : KeyRows table) :
    Keyed keyGenerator keyCols table where
  parsed := Query.parsed_scanGenerator scanGenerator_keyQuery
  names := rfl
  typed := by
    intro col member
    refine ⟨?_, fun row inTable => ?_⟩
    · rw [List.mem_singleton.mp member]
      exact .inr rfl
    · obtain ⟨value, rfl⟩ := keyRows.rows row inTable
      rw [List.mem_singleton.mp member]
      exact ⟨value, rfl⟩
  copied := by decide

/-- A scan without aggregates only looks up positions. -/
theorem exec_scanStmt_nil
    {interp : Interp}
    {i : Nat}
    {cond : Text}
    (always : ∀ rows group, interp.guard i cond rows group = some true)
    (generator : ScanGenerator)
    (machine : Machine) :
    ∃ final, exec interp (generator.scanStmt i [] cond) machine = some final ∧
      final.store = machine.store := by
  obtain ⟨final, finished, same⟩ := iterate_induction .scan
    (exec interp (.seq .declarePos (.guarded i cond (.seq (.findPos i generator.groupingAttr)
      (.block [])))))
    (fun _ current => current.store = machine.store) machine.store.data machine rfl
    (by
      intro done row rest current _ same
      have bound : (current.enter .scan row done.length).row .it = some row := by
        simp [Machine.enter, Loop.iter]
      refine ⟨{ current.enter .scan row done.length with
        pos := toSizeT (vfind interp.cols ((current.enter .scan row done.length).store.group i)
          (generator.groupingAttr.map row)) }, ?_, same⟩
      simp [exec, always, bound, Stmt.block])
  refine ⟨final.leave machine, ?_, same⟩
  simp only [ScanGenerator.scanStmt, exec, Loop.vector, List.map_nil] at finished ⊢
  rw [finished]
  rfl

/-- The passes of the program complete on every table. -/
theorem runScans_keyProgram
    {interp : Interp}
    (always : ∀ rows group, interp.guard 0 "true" rows group = some true)
    (types : interp.cols = keyCols)
    {table : List Row}
    (keyRows : KeyRows table) :
    ∃ machine, keyProgram.runScans interp table = some machine ∧
      InStep keyGenerator table machine.store := by
  obtain ⟨ready, prelim, -⟩ := keyGenerator.exec_prelimStmt interp table
  obtain ⟨machine, scanned, -⟩ := exec_scanStmt_nil always keyGenerator ready
  have finished : keyProgram.runScans interp table = some machine := by
    simp only [Program.runScans, keyProgram, prelim, Option.bind_some, execAll, scanned]
    rfl
  refine ⟨machine, finished, ?_⟩
  exact runScans_inStep (types ▸ keyRows.keyed)
    (ScanGenerator.compiled_of_program program_keyGenerator) finished

/-- What the last pass of the program leaves: the entries whose position,
taken as an `int`, is not `-1`. -/
theorem run_keyProgram
    {table : List Row}
    (keyRows : KeyRows table)
    {store : Store}
    (inStep : InStep keyGenerator table store)
    {fuel : Nat}
    (enough : table.length < fuel) :
    ∃ final, keyProgram.fill.run keyCols (.ofPredicate fun _ => true) fuel store = some final ∧
      final.vector = (table.filter fun row =>
        decide (wrap32 (keyIndex (keyOf ["k"]) table (keyOf ["k"] row)) ≠ -1)).map
          (plainRecord ["k"]) := by
  have firsts_eq : firsts (keyOf ["k"]) table = table :=
    FirstOccurrence.firsts_eq_self _ keyRows.nodup
  have results : store.mfStruct = table.map (plainRecord ["k"]) := by
    rw [inStep.results_eq]
    exact congrArg _ firsts_eq
  have found (row : Row) (member : row ∈ table) :
      vfind keyCols (store.group 0)
          (keyOf keyProgram.fill.groupingAttr (plainRecord ["k"] row)) =
        wrap32 (keyIndex (keyOf ["k"]) table (keyOf ["k"] row)) := by
    have sameKey : keyOf keyProgram.fill.groupingAttr (plainRecord ["k"] row) =
        keyOf ["k"] row := by
      simp [keyOf, plainRecord, keyProgram]
    have looked := keyRows.keyed.vfind_eq_wrap32 (inStep.follows (Nat.zero_le _)) member
    rw [sameKey]
    rw [show keyGenerator.groupingAttr = ["k".toList] from rfl, firsts_eq] at looked
    exact looked
  have body (entry : Record) (member : entry ∈ store.mfStruct) :
      keyProgram.fill.body keyCols (.ofPredicate fun _ => true) store.group entry =
        some (store.group,
          if vfind keyCols (store.group 0) (keyOf keyProgram.fill.groupingAttr entry) = -1 then
            none
          else some entry) := by
    simp only [FillPass.body, Having.ofPredicate, Option.bind_some, Bool.not_true,
      Bool.false_eq_true, if_false]
    split_ifs <;> rfl
  have enoughTests : store.mfStruct.length < fuel := by
    rw [results, List.length_map]
    exact enough
  refine ⟨_, EraseLoop.run_eq body enoughTests, ?_⟩
  rw [results, List.filterMap_map, ← List.filterMap_eq_map, List.filterMap_filter]
  apply List.filterMap_congr
  intro row member
  simp only [Function.comp_apply, found row member, decide_eq_true_eq]
  split_ifs <;> simp_all

/-- Only the last of `2 ^ 32` positions is `-1` as an `int`. -/
theorem wrap32_eq_neg_one_iff
    {position : Nat}
    (small : position < 2 ^ 32) :
    wrap32 position = -1 ↔ position = 2 ^ 32 - 1 := by
  unfold wrap32
  rw [Int.bmod_def]
  split_ifs <;> omega

/-- Among `2 ^ 32` groups the last pass keeps all but the last one. -/
theorem mem_filter_position_iff
    {table : List Row}
    (keyRows : KeyRows table)
    (many : table.length = 2 ^ 32)
    {position : Nat}
    (inside : position < table.length) :
    table[position] ∈ (table.filter fun row =>
        decide (wrap32 (keyIndex (keyOf ["k"]) table (keyOf ["k"] row)) ≠ -1)) ↔
      position ≠ 2 ^ 32 - 1 := by
  have index := FirstOccurrence.keyIndex_getElem (keyOf ["k"]) keyRows.nodup inside
  rw [List.get_eq_getElem] at index
  rw [List.mem_filter, decide_eq_true_eq, index, Ne, wrap32_eq_neg_one_iff (by omega)]
  simp

/-- A table of `2 ^ 32` different keys. -/
def manyRows : List Row := (List.range (2 ^ 32)).map keyRow

theorem keyOf_keyRow (value : Nat) : keyOf ["k"] (keyRow value) = [.int value] := rfl

theorem keyRows_manyRows : KeyRows manyRows where
  rows := by
    intro row member
    obtain ⟨value, -, rfl⟩ := List.mem_map.mp member
    exact ⟨value, rfl⟩
  nodup := by
    rw [manyRows, List.map_map]
    refine List.nodup_range.map fun left right same => ?_
    simp only [Function.comp_apply, keyOf_keyRow, List.cons.injEq, Value.int.injEq, and_true]
      at same
    exact Int.ofNat_inj.mp same

theorem length_manyRows : manyRows.length = 2 ^ 32 := by
  rw [manyRows, List.length_map, List.length_range]

/-- Guards that admit every row. -/
def allRows : Guards where
  admits _ _ _ := true
  reads_smaller _ _ _ _ _ := rfl
  zero _ _ := rfl

end MfQuery
