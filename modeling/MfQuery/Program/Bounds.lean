import MfQuery.Program.Run

/-!
# Positions stay in range

The updates of a scan index a group vector with `at(pos)`, where `pos` was
looked up by key or is the index of the outer loop. At every point of the
scans where an update is about to run, the position is inside the vector.
-/

namespace MfQuery

open Text

/-- The updates of a bucket share one position. -/
theorem passes_updates
    {interp : Interp}
    {bucket : List Aggregate}
    {source other : Iter}
    {aggregate : Aggregate}
    {machine current : Machine}
    (passes : Passes interp (.block (bucket.map fun entry => .update entry source)) machine
      (.update aggregate other) current) :
    aggregate ∈ bucket ∧ current.pos = machine.pos := by
  induction bucket generalizing machine with
  | nil => cases passes
  | cons first bucket inductionHypothesis =>
      cases passes with
      | first inFirst =>
          cases inFirst
          exact ⟨List.mem_cons_self .., rfl⟩
      | second firstDone inSecond =>
          obtain ⟨member, pos⟩ := inductionHypothesis inSecond
          refine ⟨List.mem_cons_of_mem _ member, pos.trans ?_⟩
          simp only [exec, Option.bind_eq_bind, Option.bind_eq_some_iff, updateAt] at firstDone
          obtain ⟨row, -, updated⟩ := firstDone
          split_ifs at updated <;> cases updated <;> rfl

/-! ## Positions of updates -/

section Positions

variable {interp : Interp} {generator : ScanGenerator} {table : List Row}
  {i : Nat} {bucket : List Aggregate} {cond : Text} {machine current : Machine}
  {aggregate : Aggregate} {source : Iter}

/-- In an MF scan the position of an update is that of a looked-up key. -/
theorem passes_scanStmt
    (keyed : Keyed generator interp.cols table)
    (few : FewKeys generator.groupingAttr table)
    (inStep : InStep generator table machine.store)
    (inRange : i ≤ generator.noGroupingVars)
    (own : ∀ entry ∈ bucket, entry.group = (i : Int))
    (passes : Passes interp (generator.scanStmt i bucket cond) machine
      (.update aggregate source) current) :
    aggregate ∈ bucket ∧ current.pos < machine.store.uniques.length := by
  cases passes with
  | @turn _ _ _ _ visited row rest entered _ shape iterated inBody =>
      have enteredStep : InStep generator table entered.store := by
        have writes : (Stmt.seq .declarePos (.guarded i cond
            (.seq (.findPos i generator.groupingAttr)
              (.block (bucket.map fun aggregate => .update aggregate .it))))).WritesOnly
            (· = i) := ⟨trivial, trivial, writesOnly_updates own .it⟩
        have kept := iterate_keeps (fun _ _ finished => exec_keeps writes finished) iterated
        exact inStep.keep keyed.parsed kept
      have inTable : row ∈ table := by
        rw [Loop.vector, inStep.data_eq] at shape
        simp [shape]
      cases inBody with
      | first inDeclare => cases inDeclare
      | second declared inGuarded =>
          cases declared
          cases inGuarded with
          | admitted _ inSeq =>
              cases inSeq with
              | first inFind => cases inFind
              | second located inUpdates =>
                  obtain ⟨member, pos⟩ := passes_updates inUpdates
                  simp only [exec, Machine.enter, Loop.iter, Function.update_self,
                    Option.bind_eq_bind, Option.bind_some] at located
                  cases located
                  refine ⟨member, ?_⟩
                  rw [pos, inStep.uniques_eq]
                  have found := keyed.toSizeT_vfind few (enteredStep.follows inRange) inTable
                  exact lt_of_eq_of_lt found (FirstOccurrence.keyIndex_firsts_lt _
                    (List.mem_map_of_mem inTable))

/-- In an EMF scan the position of an update is the index of the kept row. -/
theorem passes_emfScanStmt
    (passes : Passes interp (ScanGenerator.emfScanStmt i bucket cond) machine
      (.update aggregate source) current) :
    aggregate ∈ bucket ∧ current.pos < machine.store.uniques.length := by
  cases passes with
  | @turn _ _ _ _ visited kept rest entered _ shape iterated inInner =>
      have below : visited.length < machine.store.uniques.length := by
        rw [show machine.store.uniques = visited ++ kept :: rest from shape]
        simp
      cases inInner with
      | @turn _ _ _ _ visitedRows row restRows enteredRow _ shapeRows iteratedRows inBody =>
          have offset : enteredRow.offset = visited.length := by
            refine iterate_preserves (fun before after => after.offset = before.offset)
              (fun _ => rfl) (fun _ _ _ left right => right.trans left) ?_ iteratedRows
            intro before row index after finished
            exact (exec_locals finished).2
          cases inBody with
          | admitted _ inSeq =>
              cases inSeq with
              | first inOffset => cases inOffset
              | second located inUpdates =>
                  obtain ⟨member, pos⟩ := passes_updates inUpdates
                  cases located
                  refine ⟨member, ?_⟩
                  rw [pos]
                  exact lt_of_eq_of_lt offset below

end Positions

/-- No update of a compiled program leaves its vector. -/
theorem passes_scans
    {interp : Interp}
    {generator : ScanGenerator}
    {table : List Row}
    (keyed : Keyed generator interp.cols table)
    (few : FewKeys generator.groupingAttr table)
    {program : Program}
    (compiled : generator.Compiled program)
    {machine current : Machine}
    (inStep : InStep generator table machine.store)
    {aggregate : Aggregate}
    {source : Iter}
    (passes : Passes interp (.block program.scans) machine (.update aggregate source) current) :
    current.pos < (current.store.group aggregate.group.toNat).length := by
  have currentStep := inStep.keep keyed.parsed (passes_keeps passes compiled.writesOnly_scans)
  -- find the scan the update belongs to
  suffices located : ∀ (scans : List Stmt) (k : Nat) (before : Machine),
      InStep generator table before.store → (∀ j scan, scans[j]? = some scan →
        program.scans[k + j]? = some scan) →
      Passes interp (.block scans) before (.update aggregate source) current →
        aggregate.group.toNat ≤ generator.noGroupingVars ∧
          current.pos < current.store.uniques.length by
    obtain ⟨inRange, below⟩ := located program.scans 0 machine inStep (by simp) passes
    rwa [currentStep.lockstep.length_group inRange]
  intro scans
  induction scans with
  | nil => intro _ _ _ _ impossible; cases impossible
  | cons scan rest inductionHypothesis =>
      intro k before beforeStep positions passesHere
      have found : program.scans[k]? = some scan := by simpa using positions 0 scan rfl
      cases passesHere with
      | second scanDone later =>
          have kept := exec_keeps (compiled.writesOnly_scan found) scanDone
          refine inductionHypothesis (k + 1) _ (beforeStep.keep keyed.parsed kept) ?_ later
          intro j other inside
          have shifted := positions (j + 1) other inside
          rwa [show k + (j + 1) = k + 1 + j by omega] at shifted
      | first inScan =>
          have uniques := (passes_keeps inScan (compiled.writesOnly_scan found)).uniques_eq
          obtain ⟨inRange, cond, -, rfl⟩ := compiled.scan found
          have own : ∀ entry ∈ generator.bucket k, entry.group = (k : Int) := by
            intro entry member
            exact of_decide_eq_true (List.mem_filter.mp member).2
          have bounds : aggregate ∈ generator.bucket k ∧
              current.pos < before.store.uniques.length := by
            unfold ScanGenerator.modeScanStmt at inScan
            split_ifs at inScan
            · exact passes_emfScanStmt inScan
            · exact passes_scanStmt keyed few beforeStep inRange own inScan
          have group := own aggregate bounds.1
          rw [uniques]
          exact ⟨by omega, bounds.2⟩

end MfQuery
