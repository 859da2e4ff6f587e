import MfQuery.Program.Scans

/-!
# Running the passes

The scans run one after the other, each on the vectors its predecessors left.
Since the guard of scan `i` reads only the vectors of smaller groups, and no
later scan writes those, the guard can be read off the final state: every
group vector ends as the plain records, each folded over the table rows its
kept row selects in the final state.
-/

namespace MfQuery

open Text

/-- The first pass and the scans. -/
def Program.runScans (interp : Interp) (program : Program) (table : List Row) : Option Machine :=
  (exec interp program.prelim (Machine.start table)).bind (execAll interp program.scans)

/-- Whatever the guards mean, completed passes leave the vectors in step. -/
theorem runScans_inStep
    {interp : Interp}
    {generator : ScanGenerator}
    {table : List Row}
    (keyed : Keyed generator interp.cols table)
    {program : Program}
    (compiled : generator.Compiled program)
    {machine : Machine}
    (finished : program.runScans interp table = some machine) :
    InStep generator table machine.store := by
  obtain ⟨ready, prelim, store, -, -⟩ := generator.exec_prelimStmt interp table
  simp only [Program.runScans, compiled.prelim_eq, prelim, Option.bind_some] at finished
  rw [← exec_block] at finished
  have kept := exec_keeps compiled.writesOnly_scans finished
  rw [store] at kept
  exact (InStep.prelimStore keyed).keep keyed.parsed kept

/-- A meaning of the guards: predicates of the loop rows and of the vectors of
smaller groups; the guard of group zero is constantly true. -/
structure Guards where
  admits : Nat → (Nat → List Record) → (Iter → Option Row) → Bool
  reads_smaller : ∀ i group group' rows, (∀ j < i, group' j = group j) →
    admits i group' rows = admits i group rows
  zero : ∀ group rows, admits 0 group rows = true

namespace Guards

/-- Statements run under a meaning of the guards. -/
def interp (guards : Guards) (cols : List Ct) : Interp where
  cols := cols
  guard scan _ rows group := some (guards.admits scan group rows)

/-- The rows scan `i` selects for a kept row. -/
def selects
    (guards : Guards)
    (generator : ScanGenerator)
    (group : Nat → List Record)
    (i : Nat)
    (kept row : Row) : Bool :=
  if generator.emf then guards.admits i group (rowsOf (some kept) (some row))
  else keySelects generator.groupingAttr
    (fun other => guards.admits i group (rowsOf (some other) none)) kept row

theorem selects_congr
    (guards : Guards)
    (generator : ScanGenerator)
    {group group' : Nat → List Record}
    {i : Nat}
    (agree : ∀ j < i, group' j = group j) :
    guards.selects generator group' i = guards.selects generator group i := by
  funext kept row
  simp only [selects, keySelects, guards.reads_smaller i group group' _ agree]

/-- An interpretation gives the emitted guards this meaning on the rows of a
table. -/
def MeantBy
    (guards : Guards)
    (interp : Interp)
    (generator : ScanGenerator)
    (table : List Row) : Prop :=
  ∀ i ≤ generator.noGroupingVars, ∀ cond, generator.getSelectionCond i = some cond →
    ∀ group : Nat → List Record,
      if generator.emf then
        ∀ kept ∈ table, ∀ row ∈ table,
          interp.guard i cond (rowsOf (some kept) (some row)) group =
            some (guards.admits i group (rowsOf (some kept) (some row)))
      else
        ∀ row ∈ table,
          interp.guard i cond (rowsOf (some row) none) group =
            some (guards.admits i group (rowsOf (some row) none))

theorem meantBy_interp
    (guards : Guards)
    (cols : List Ct)
    (generator : ScanGenerator)
    (table : List Row) :
    guards.MeantBy (guards.interp cols) generator table := by
  intro i _ cond _ group
  split_ifs
  · exact fun _ _ _ _ => rfl
  · exact fun _ _ => rfl

end Guards

/-- The guards of the running example, in either mode: quantities above five
in the loop row of `it`. -/
def saleGuards : Guards where
  admits i _ rows := decide (i = 0) || match rows .it with
    | some row => decide (5 < (row "quant").asInt)
    | none => false
  reads_smaller _ _ _ _ _ := rfl
  zero _ _ := rfl

section Run

variable {interp : Interp} {generator : ScanGenerator} {table : List Row} {guards : Guards}

/-- The scan of one group gathers in either mode. -/
theorem exec_modeScanStmt
    (keyed : Keyed generator interp.cols table)
    (few : FewKeys generator.groupingAttr table)
    (means : guards.MeantBy interp generator table)
    {machine : Machine}
    (ready : ScanReady generator table machine)
    {i : Nat}
    (inRange : i ≤ generator.noGroupingVars)
    {cond : Text}
    (condition : generator.getSelectionCond i = some cond) :
    ∃ final,
      exec interp (generator.modeScanStmt i (generator.bucket i) cond) machine = some final ∧
      final.store = machine.store.setGroup i
        (gather (guards.selects generator machine.store.group i)
          (applyAll (generator.bucket i)) table machine.store.uniques
          (machine.store.group i)) ∧
      final.row = machine.row := by
  have own : ∀ aggregate ∈ generator.bucket i, aggregate.group = (i : Int) := by
    intro aggregate member
    simpa using (List.mem_filter.mp member).2
  have meaning := means i inRange cond condition
  unfold ScanGenerator.modeScanStmt Guards.selects
  cases mode : generator.emf with
  | true =>
      simp only [mode, if_true] at meaning ⊢
      refine exec_emfScanStmt ready inRange own fun kept isKept row member group agree => ?_
      have keptInTable : kept ∈ table := by
        rw [ready.uniques_eq] at isKept
        exact (FirstOccurrence.firsts_sublist _ table).subset isKept
      rw [meaning group kept keptInTable row member,
        guards.reads_smaller i machine.store.group group _ agree]
  | false =>
      simp only [mode, Bool.false_eq_true, if_false] at meaning ⊢
      refine exec_scanStmt keyed few ready inRange own fun row member group agree => ?_
      rw [meaning group row member, guards.reads_smaller i machine.store.group group _ agree]

/-- The scans of the groups from `i` on. -/
theorem execAll_scanStmts
    (keyed : Keyed generator interp.cols table)
    (few : FewKeys generator.groupingAttr table)
    (means : guards.MeantBy interp generator table)
    {count i : Nat}
    (upTo : i + count = generator.noGroupingVars + 1)
    {scans : List Stmt}
    (statements : generator.scanStmts i ((List.range' i count).map generator.bucket) =
      some scans)
    {machine : Machine}
    (ready : ScanReady generator table machine) :
    ∃ final, execAll interp scans machine = some final ∧
      ScanReady generator table final ∧
      final.store.mfStruct = machine.store.mfStruct ∧
      (∀ j < i, final.store.group j = machine.store.group j) ∧
      ∀ j, i ≤ j → j ≤ generator.noGroupingVars → final.store.group j =
        gather (guards.selects generator final.store.group j)
          (applyAll (generator.bucket j)) table machine.store.uniques
          (machine.store.group j) := by
  induction count generalizing i scans machine with
  | zero =>
      cases statements
      refine ⟨machine, rfl, ready, rfl, fun _ _ => rfl, fun j above below => ?_⟩
      omega
  | succ count inductionHypothesis =>
      simp only [List.range'_succ, List.map_cons, ScanGenerator.scanStmts,
        Option.bind_eq_bind, Option.bind_eq_some_iff] at statements
      obtain ⟨cond, condition, rest, later, result⟩ := statements
      cases result
      have inRange : i ≤ generator.noGroupingVars := by omega
      obtain ⟨middle, stepped, middleStore, middleRow⟩ :=
        exec_modeScanStmt keyed few means ready inRange condition
      have own : ∀ aggregate ∈ generator.bucket i, aggregate.group = (i : Int) :=
        fun aggregate member => of_decide_eq_true (List.mem_filter.mp member).2
      have writes := generator.writesOnly_modeScanStmt own cond
      have middleReady : ScanReady generator table middle :=
        { lockstep := ready.lockstep.keep keyed.parsed.plain_column (exec_keeps writes stepped)
          data_eq := by rw [middleStore]; exact ready.data_eq
          uniques_eq := by rw [middleStore]; exact ready.uniques_eq
          idle := middleRow.trans ready.idle }
      obtain ⟨final, finished, finalReady, results, smaller, larger⟩ :=
        inductionHypothesis (by omega) later middleReady
      have untouched : ∀ j ≠ i, middle.store.group j = machine.store.group j := by
        intro j different
        rw [middleStore, Store.setGroup_group_of_ne different]
      have below : ∀ j < i, final.store.group j = machine.store.group j := by
        intro j less
        rw [smaller j (by omega), untouched j (by omega)]
      have sameUniques : middle.store.uniques = machine.store.uniques := by
        rw [middleStore]
        rfl
      refine ⟨final, ?_, finalReady, ?_, below, fun j from_ upTo => ?_⟩
      · simp only [execAll, stepped, Option.bind_eq_bind, Option.bind_some, finished]
      · rw [results, middleStore]
        rfl
      · rcases Nat.eq_or_lt_of_le from_ with rfl | beyond
        · rw [smaller i (by omega), middleStore, Store.setGroup_group_self,
            guards.selects_congr generator below]
        · rw [larger j beyond upTo, sameUniques, untouched j (by omega)]

/-- The record a kept row ends with in group `i`. -/
def finalRecord
    (guards : Guards)
    (generator : ScanGenerator)
    (table : List Row)
    (group : Nat → List Record)
    (i : Nat)
    (kept : Row) : Record :=
  (table.filter (guards.selects generator group i kept)).foldl
    (fun record row => applyAll (generator.bucket i) row record)
    (plainRecord generator.selectColumns kept)

/-- The state in which the scans end. -/
structure Scanned
    (guards : Guards)
    (generator : ScanGenerator)
    (table : List Row)
    (store : Store) : Prop extends InStep generator table store where
  groups : ∀ i ≤ generator.noGroupingVars, store.group i =
    (firsts (keyOf generator.groupingAttr) table).map
      (finalRecord guards generator table store.group i)

/-- The state after the first pass is ready for the scans. -/
theorem ScanReady.of_prelimStore
    (keyed : Keyed generator interp.cols table)
    {machine : Machine}
    (store : machine.store = generator.prelimStore interp.cols table)
    (idle : machine.row = fun _ => none) :
    ScanReady generator table machine where
  lockstep := by
    rw [store]
    exact .prelimStore generator interp.cols table
  data_eq := by rw [store]; rfl
  uniques_eq := by rw [store]; exact keyed.getUniques_eq
  idle := by
    rw [idle]
    funext iter
    cases iter <;> rfl

/-- The emitted passes complete, and every group vector holds the plain
records folded over the rows its kept rows select. -/
theorem runScans_scanned
    (keyed : Keyed generator interp.cols table)
    (few : FewKeys generator.groupingAttr table)
    (means : guards.MeantBy interp generator table)
    {program : Program}
    (compiled : generator.Compiled program) :
    ∃ final, program.runScans interp table = some final ∧
      Scanned guards generator table final.store := by
  have statements := compiled.scans_eq
  obtain ⟨machine, prelim, store, idle, -⟩ := generator.exec_prelimStmt interp table
  have ready : ScanReady generator table machine := .of_prelimStore keyed store idle
  rw [List.range_eq_range'] at statements
  obtain ⟨final, finished, finalReady, results, -, groups⟩ :=
    execAll_scanStmts keyed few means (by omega) statements ready
  refine ⟨final, ?_, ?_⟩
  · simp only [Program.runScans, compiled.prelim_eq, prelim, Option.bind_some, finished]
  · refine ⟨⟨finalReady.data_eq, finalReady.uniques_eq, ?_, finalReady.lockstep⟩,
      fun i upTo => ?_⟩
    · rw [results, store, ScanGenerator.prelimStore, keyed.getUniques_eq]
    · rw [groups i (Nat.zero_le i) upTo, ready.uniques_eq, store]
      simp only [ScanGenerator.prelimStore, upTo, if_true, keyed.getUniques_eq, gather,
        List.zipWith_map_right, List.zipWith_self]
      rfl

end Run
end MfQuery
