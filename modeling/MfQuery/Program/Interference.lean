import MfQuery.Program.Run

/-!
# Scans do not interfere

The scan of a group writes only that group, so what a later scan reads of
smaller groups is final. What a scan computes depends only on the table, the
kept rows and the groups up to its own; two programs that agree on these
compute the same group vectors, whatever they do with larger groups.
-/

namespace MfQuery

open Text

/-- The guard of a scan reads only the vectors of smaller groups. -/
def Interp.ReadsSmaller (interp : Interp) (i : Nat) (cond : Text) : Prop :=
  ∀ (rows : Iter → Option Row) (group group' : Nat → List Record),
    (∀ j < i, group' j = group j) →
      interp.guard i cond rows group' = interp.guard i cond rows group

/-! ## Agreement of two states -/

/-- Two states that agree on all a scan of a group up to `i` can see. -/
structure Machine.AgreeUpTo (i : Nat) (left right : Machine) : Prop where
  data_eq : right.store.data = left.store.data
  uniques_eq : right.store.uniques = left.store.uniques
  row_eq : right.row = left.row
  offset_eq : right.offset = left.offset
  pos_eq : right.pos = left.pos
  group_eq : ∀ k ≤ i, right.store.group k = left.store.group k

/-- Statements that see only groups up to `i`. -/
def Stmt.SeesUpTo (interp : Interp) (i : Nat) : Stmt → Prop
  | .skip | .declarePos | .offsetPos => True
  | .findPos k _ => k ≤ i
  | .seq first second => first.SeesUpTo interp i ∧ second.SeesUpTo interp i
  | .update aggregate _ => aggregate.group.toNat ≤ i
  | .guarded scan cond body =>
      scan ≤ i ∧ interp.ReadsSmaller scan cond ∧ body.SeesUpTo interp i
  | .loop _ body => body.SeesUpTo interp i
  | .declareUniques | .declareGroup _ | .callocEntry | .copyEntry _ | .pushEntry
  | .callocGroupEntry _ | .copyGroupEntry _ _ | .pushGroupEntry _ => False

theorem Stmt.seesUpTo_block
    {interp : Interp}
    {i : Nat}
    {statements : List Stmt}
    (each : ∀ statement ∈ statements, statement.SeesUpTo interp i) :
    (Stmt.block statements).SeesUpTo interp i := by
  induction statements with
  | nil => trivial
  | cons statement rest inductionHypothesis =>
      exact ⟨each statement (List.mem_cons_self ..),
        inductionHypothesis fun other member => each other (List.mem_cons_of_mem _ member)⟩

namespace Machine.AgreeUpTo

variable {i : Nat} {left right : Machine}

theorem enter
    (agree : AgreeUpTo i left right)
    (kind : Loop)
    (row : Row)
    (index : Nat) :
    AgreeUpTo i (left.enter kind row index) (right.enter kind row index) where
  data_eq := agree.data_eq
  uniques_eq := agree.uniques_eq
  row_eq := by simp only [Machine.enter, agree.row_eq]
  offset_eq := by simp only [Machine.enter, agree.offset_eq]
  pos_eq := agree.pos_eq
  group_eq := agree.group_eq

theorem leave
    {leftOuter rightOuter : Machine}
    (agree : AgreeUpTo i left right)
    (outer : AgreeUpTo i leftOuter rightOuter) :
    AgreeUpTo i (left.leave leftOuter) (right.leave rightOuter) where
  data_eq := agree.data_eq
  uniques_eq := agree.uniques_eq
  row_eq := outer.row_eq
  offset_eq := outer.offset_eq
  pos_eq := agree.pos_eq
  group_eq := agree.group_eq

theorem update
    (agree : AgreeUpTo i left right)
    {aggregate : Aggregate}
    (inRange : aggregate.group.toNat ≤ i)
    {row : Row}
    {next : Machine}
    (updated : updateAt aggregate row left = some next) :
    ∃ next', updateAt aggregate row right = some next' ∧ AgreeUpTo i next next' := by
  simp only [updateAt, agree.pos_eq, agree.group_eq _ inRange] at updated ⊢
  split_ifs at updated ⊢ with unknown inside
  · cases updated
    exact ⟨right, rfl, agree⟩
  · cases updated
    refine ⟨_, rfl, ?_⟩
    exact {
      data_eq := agree.data_eq
      uniques_eq := agree.uniques_eq
      row_eq := agree.row_eq
      offset_eq := agree.offset_eq
      pos_eq := rfl
      group_eq := fun k upTo => by
        by_cases same : k = aggregate.group.toNat
        · subst k
          simp [Store.setGroup]
        · simp [Store.setGroup, same, agree.group_eq k upTo] }

end Machine.AgreeUpTo

/-- A loop whose body runs alike from agreeing states runs alike. -/
theorem iterate_agree
    {i : Nat}
    {body : Machine → Option Machine}
    (each : ∀ left right next, Machine.AgreeUpTo i left right → body left = some next →
      ∃ next', body right = some next' ∧ Machine.AgreeUpTo i next next')
    {kind : Loop}
    {rows : List Row}
    {index : Nat}
    {left right final : Machine}
    (agree : Machine.AgreeUpTo i left right)
    (finished : iterate body kind rows index left = some final) :
    ∃ final', iterate body kind rows index right = some final' ∧
      Machine.AgreeUpTo i final final' := by
  induction rows generalizing index left right with
  | nil =>
      cases finished
      exact ⟨right, rfl, agree⟩
  | cons row rows inductionHypothesis =>
      simp only [iterate, Option.bind_eq_bind, Option.bind_eq_some_iff] at finished
      obtain ⟨next, stepped, rest⟩ := finished
      obtain ⟨next', stepped', nextAgree⟩ := each _ _ _ (agree.enter kind row index) stepped
      obtain ⟨final', finished', finalAgree⟩ := inductionHypothesis nextAgree rest
      refine ⟨final', ?_, finalAgree⟩
      simp only [iterate, stepped', Option.bind_eq_bind, Option.bind_some, finished']

/-- From agreeing states a statement runs alike. -/
theorem exec_agree
    {interp : Interp}
    {i : Nat}
    {statement : Stmt}
    (sees : statement.SeesUpTo interp i)
    {left right next : Machine}
    (agree : Machine.AgreeUpTo i left right)
    (finished : exec interp statement left = some next) :
    ∃ next', exec interp statement right = some next' ∧ Machine.AgreeUpTo i next next' := by
  induction statement generalizing left right next with
  | skip | declarePos =>
      cases finished
      exact ⟨right, rfl, agree⟩
  | offsetPos =>
      cases finished
      exact ⟨_, rfl, { agree with pos_eq := agree.offset_eq }⟩
  | findPos k attributes =>
      simp only [exec, Option.bind_eq_bind, Option.bind_eq_some_iff] at finished
      obtain ⟨row, bound, result⟩ := finished
      cases result
      refine ⟨{ right with pos := toSizeT (vfind interp.cols (right.store.group k)
        (attributes.map row)) }, ?_, { agree with pos_eq := ?_ }⟩
      · simp only [exec, agree.row_eq, bound, Option.bind_eq_bind, Option.bind_some]
        rfl
      · simp only [agree.group_eq k sees]
  | seq first second firstHypothesis secondHypothesis =>
      simp only [exec, Option.bind_eq_bind, Option.bind_eq_some_iff] at finished
      obtain ⟨middle, firstDone, secondDone⟩ := finished
      obtain ⟨middle', firstDone', middleAgree⟩ := firstHypothesis sees.1 agree firstDone
      obtain ⟨next', secondDone', nextAgree⟩ := secondHypothesis sees.2 middleAgree secondDone
      refine ⟨next', ?_, nextAgree⟩
      simp only [exec, firstDone', Option.bind_eq_bind, Option.bind_some, secondDone']
  | update aggregate source =>
      simp only [exec, Option.bind_eq_bind, Option.bind_eq_some_iff] at finished
      obtain ⟨row, bound, updated⟩ := finished
      obtain ⟨next', updated', nextAgree⟩ := agree.update sees updated
      refine ⟨next', ?_, nextAgree⟩
      simp only [exec, agree.row_eq, bound, Option.bind_eq_bind, Option.bind_some, updated']
  | guarded scan cond body inductionHypothesis =>
      obtain ⟨inRange, readsSmaller, bodySees⟩ := sees
      simp only [exec, Option.bind_eq_bind, Option.bind_eq_some_iff] at finished
      obtain ⟨admitted, guard, result⟩ := finished
      have guard' : interp.guard scan cond right.row right.store.group = some admitted := by
        rw [agree.row_eq, readsSmaller _ left.store.group _ fun j smaller =>
          agree.group_eq j (by omega)]
        exact guard
      simp only [exec, guard', Option.bind_eq_bind, Option.bind_some]
      cases admitted with
      | true => exact inductionHypothesis bodySees agree result
      | false =>
          cases result
          exact ⟨right, rfl, agree⟩
  | loop kind body inductionHypothesis =>
      simp only [exec, Option.bind_eq_bind, Option.bind_eq_some_iff] at finished
      obtain ⟨final, iterated, result⟩ := finished
      cases result
      have sameVector : kind.vector right.store = kind.vector left.store := by
        cases kind <;> simp only [Loop.vector, agree.data_eq, agree.uniques_eq]
      obtain ⟨final', iterated', finalAgree⟩ := iterate_agree
        (fun _ _ _ together stepped => inductionHypothesis sees together stepped) agree iterated
      refine ⟨final'.leave right, ?_, finalAgree.leave agree⟩
      simp only [exec, sameVector, iterated', Option.bind_eq_bind, Option.bind_some]
      rfl
  | declareUniques | declareGroup | callocEntry | copyEntry | pushEntry | callocGroupEntry
  | copyGroupEntry | pushGroupEntry => exact sees.elim

/-! ## Two programs -/

/-- Two queries with the same plain parts, the same aggregates of groups up to
`i` and the same such-that lines up to group `i`; anything else may differ. -/
structure SameUpTo (i : Nat) (left right : ScanGenerator) : Prop where
  left_inRange : i ≤ left.noGroupingVars
  right_inRange : i ≤ right.noGroupingVars
  columns_eq : right.columns = left.columns
  selectColumns_eq : right.selectColumns = left.selectColumns
  groupingAttr_eq : right.groupingAttr = left.groupingAttr
  emf_eq : right.emf = left.emf
  bucket_eq : ∀ j ≤ i, right.bucket j = left.bucket j
  conditions_eq : right.selectConditions.take i = left.selectConditions.take i

namespace SameUpTo

variable {i : Nat} {left right : ScanGenerator}

theorem getSelectionCond_eq
    (same : SameUpTo i left right)
    {j : Nat}
    (upTo : j ≤ i) :
    right.getSelectionCond j = left.getSelectionCond j := by
  cases j with
  | zero => rfl
  | succ j =>
      have line : right.selectConditions[j]? = left.selectConditions[j]? := by
        have taken := congrArg (·[j]?) same.conditions_eq
        simpa [List.getElem?_take, Nat.lt_of_succ_le upTo] using taken
      simp only [ScanGenerator.getSelectionCond, line, same.groupingAttr_eq, same.columns_eq]

theorem modeScanStmt_eq
    (same : SameUpTo i left right)
    (j : Nat)
    (bucket : List Aggregate)
    (cond : Text) :
    right.modeScanStmt j bucket cond = left.modeScanStmt j bucket cond := by
  simp only [ScanGenerator.modeScanStmt, ScanGenerator.scanStmt, same.emf_eq,
    same.groupingAttr_eq]

/-- Their programs begin with the same scans. -/
theorem take_scans_eq
    (same : SameUpTo i left right)
    {leftProgram rightProgram : Program}
    (leftCompiled : left.Compiled leftProgram)
    (rightCompiled : right.Compiled rightProgram) :
    rightProgram.scans.take (i + 1) = leftProgram.scans.take (i + 1) := by
  have leftLength := leftCompiled.length_scans
  have rightLength := rightCompiled.length_scans
  have leftRange := same.left_inRange
  have rightRange := same.right_inRange
  apply List.ext_getElem
  · simp only [List.length_take]
    omega
  intro j inRight inLeft
  rw [List.length_take] at inRight inLeft
  rw [List.getElem_take, List.getElem_take]
  obtain ⟨-, leftCond, leftGuard, leftShape⟩ := leftCompiled.scan
    (List.getElem?_eq_getElem (l := leftProgram.scans) (i := j) (by omega))
  obtain ⟨-, rightCond, rightGuard, rightShape⟩ := rightCompiled.scan
    (List.getElem?_eq_getElem (l := rightProgram.scans) (i := j) (by omega))
  have sameGuard : rightCond = leftCond := by
    rw [same.getSelectionCond_eq (by omega), leftGuard] at rightGuard
    exact (Option.some.inj rightGuard).symm
  rw [leftShape, rightShape, same.modeScanStmt_eq, same.bucket_eq j (by omega), sameGuard]

/-- Their first passes end in states that agree up to group `i`. -/
theorem agreeUpTo_prelim
    (same : SameUpTo i left right)
    (interp : Interp)
    (table : List Row)
    {leftReady rightReady : Machine}
    (leftDone : exec interp left.prelimStmt (Machine.start table) = some leftReady)
    (rightDone : exec interp right.prelimStmt (Machine.start table) = some rightReady) :
    Machine.AgreeUpTo i leftReady rightReady := by
  obtain ⟨leftFinal, leftRun, leftStore, leftRow, leftPos⟩ := left.exec_prelimStmt interp table
  obtain ⟨rightFinal, rightRun, rightStore, rightRow, rightPos⟩ :=
    right.exec_prelimStmt interp table
  have leftSame : leftFinal = leftReady := Option.some.inj (leftRun.symm.trans leftDone)
  have rightSame : rightFinal = rightReady := Option.some.inj (rightRun.symm.trans rightDone)
  subst leftSame rightSame
  have leftRange := same.left_inRange
  have rightRange := same.right_inRange
  refine ⟨?_, ?_, rightRow.trans leftRow.symm, ?_, rightPos.trans leftPos.symm, ?_⟩
  · rw [leftStore, rightStore]
    rfl
  · rw [leftStore, rightStore]
    rfl
  · exact (exec_locals rightDone).2.trans (exec_locals leftDone).2.symm
  · intro k upTo
    rw [leftStore, rightStore]
    simp only [ScanGenerator.prelimStore, same.selectColumns_eq,
      if_pos (upTo.trans leftRange), if_pos (upTo.trans rightRange)]

end SameUpTo

/-- A scan sees only groups up to its own. -/
theorem seesUpTo_modeScanStmt
    {interp : Interp}
    (generator : ScanGenerator)
    {j i : Nat}
    (upTo : j ≤ i)
    {cond : Text}
    (reads : interp.ReadsSmaller j cond) :
    (generator.modeScanStmt j (generator.bucket j) cond).SeesUpTo interp i := by
  have updates : ∀ source : Iter, (Stmt.block ((generator.bucket j).map fun aggregate =>
      .update aggregate source)).SeesUpTo interp i := by
    intro source
    refine Stmt.seesUpTo_block fun statement member => ?_
    obtain ⟨aggregate, inBucket, rfl⟩ := List.mem_map.mp member
    have group : aggregate.group = (j : Int) := of_decide_eq_true (List.mem_filter.mp inBucket).2
    show aggregate.group.toNat ≤ i
    omega
  unfold ScanGenerator.modeScanStmt
  split_ifs
  · exact ⟨upTo, reads, trivial, updates .xt⟩
  · exact ⟨trivial, upTo, reads, upTo, updates .it⟩

/-- Two queries that agree up to group `i` compute the same vectors of the
groups up to `i`. -/
theorem SameUpTo.group_eq
    {interp : Interp}
    {i : Nat}
    {left right : ScanGenerator}
    (same : SameUpTo i left right)
    {leftProgram rightProgram : Program}
    (leftCompiled : left.Compiled leftProgram)
    (rightCompiled : right.Compiled rightProgram)
    (reads : ∀ j ≤ i, ∀ cond, left.getSelectionCond j = some cond →
      interp.ReadsSmaller j cond)
    {table : List Row}
    {leftFinal rightFinal : Machine}
    (leftRun : leftProgram.runScans interp table = some leftFinal)
    (rightRun : rightProgram.runScans interp table = some rightFinal)
    {k : Nat}
    (upTo : k ≤ i) :
    rightFinal.store.group k = leftFinal.store.group k := by
  simp only [Program.runScans, Option.bind_eq_some_iff, leftCompiled.prelim_eq,
    rightCompiled.prelim_eq] at leftRun rightRun
  obtain ⟨leftReady, leftPrelim, leftScans⟩ := leftRun
  obtain ⟨rightReady, rightPrelim, rightScans⟩ := rightRun
  -- the common scans run alike, the others write only larger groups
  rw [← List.take_append_drop (i + 1) leftProgram.scans, execAll_append,
    Option.bind_eq_some_iff] at leftScans
  rw [← List.take_append_drop (i + 1) rightProgram.scans, execAll_append,
    Option.bind_eq_some_iff, same.take_scans_eq leftCompiled rightCompiled] at rightScans
  obtain ⟨leftMiddle, leftCommon, leftRest⟩ := leftScans
  obtain ⟨rightMiddle, rightCommon, rightRest⟩ := rightScans
  rw [← exec_block] at leftCommon rightCommon leftRest rightRest
  have sees : (Stmt.block (leftProgram.scans.take (i + 1))).SeesUpTo interp i := by
    refine Stmt.seesUpTo_block fun scan member => ?_
    obtain ⟨j, found⟩ := List.mem_iff_getElem?.mp member
    rw [List.getElem?_take] at found
    split_ifs at found with below
    obtain ⟨-, cond, guard, rfl⟩ := leftCompiled.scan found
    exact seesUpTo_modeScanStmt left (by omega) (reads j (by omega) cond guard)
  obtain ⟨middle, common, agree⟩ := exec_agree sees
    (same.agreeUpTo_prelim interp table leftPrelim rightPrelim) leftCommon
  have sameMiddle : middle = rightMiddle := Option.some.inj (common.symm.trans rightCommon)
  subst sameMiddle
  have leftKept := (exec_keeps (leftCompiled.writesOnly_drop i) leftRest).group_eq k (by omega)
  have rightKept := (exec_keeps (rightCompiled.writesOnly_drop i) rightRest).group_eq k (by omega)
  rw [leftKept, rightKept, agree.group_eq k upTo]

theorem eq_take_append_cons_drop
    {Entry : Type}
    {list : List Entry}
    {i : Nat}
    {entry : Entry}
    (found : list[i]? = some entry) :
    list = list.take i ++ entry :: list.drop (i + 1) := by
  obtain ⟨below, rfl⟩ := List.getElem?_eq_some_iff.mp found
  rw [← List.drop_eq_getElem_cons below, List.take_append_drop]

/-- Throughout the scan of group `i`, the vectors of smaller groups are those
the scans end with. -/
theorem smaller_groups_final
    {interp : Interp}
    {generator : ScanGenerator}
    {program : Program}
    (compiled : generator.Compiled program)
    {ready before current final : Machine}
    (finished : execAll interp program.scans ready = some final)
    {i : Nat}
    {scan : Stmt}
    (found : program.scans[i]? = some scan)
    (entered : execAll interp (program.scans.take i) ready = some before)
    (visits : Visits interp scan before current)
    {j : Nat}
    (smaller : j < i) :
    current.store.group j = final.store.group j := by
  rw [eq_take_append_cons_drop found, execAll_append, entered, Option.bind_some] at finished
  simp only [execAll, Option.bind_eq_bind, Option.bind_eq_some_iff] at finished
  obtain ⟨after, scanDone, rest⟩ := finished
  rw [← exec_block] at rest
  have writes := compiled.writesOnly_scan found
  have here := (visits_keeps visits writes).group_eq j (by omega)
  have through := (exec_keeps writes scanDone).group_eq j (by omega)
  have later := (exec_keeps (compiled.writesOnly_drop i) rest).group_eq j (by omega)
  rw [here, later, through]

/-- Scans do not interfere. The scan of group `i` keeps everything but records
of group `i`, at every point it passes through; what it can read of smaller
groups is what they hold when all scans have ended; and the vector it leaves
is the same for every query that differs only in aggregates and such-that
lines of larger groups. -/
theorem scans_do_not_interfere
    (generator : ScanGenerator)
    (program : Program)
    (interp : Interp)
    (compiled : generator.program = some program)
    (reads : ∀ i ≤ generator.noGroupingVars, ∀ cond,
      generator.getSelectionCond i = some cond → interp.ReadsSmaller i cond) :
    (∀ i scan before current, program.scans[i]? = some scan →
      Visits interp scan before current →
        Store.Keeps (· = i) before.store current.store) ∧
    (∀ table ready final, exec interp program.prelim (Machine.start table) = some ready →
      execAll interp program.scans ready = some final →
        ∀ i scan before current, program.scans[i]? = some scan →
          execAll interp (program.scans.take i) ready = some before →
            Visits interp scan before current →
              ∀ j < i, current.store.group j = final.store.group j) ∧
    ∀ generator' program' i, generator'.program = some program' →
      SameUpTo i generator generator' →
        ∀ table final final', program.runScans interp table = some final →
          program'.runScans interp table = some final' →
            final'.store.group i = final.store.group i := by
  have shape := ScanGenerator.compiled_of_program compiled
  refine ⟨?_, ?_, ?_⟩
  · intro i scan before current found visits
    exact visits_keeps visits (shape.writesOnly_scan found)
  · intro table ready final _ finished i scan before current found entered visits j smaller
    exact smaller_groups_final shape finished found entered visits smaller
  · intro generator' program' i compiled' same table final final' leftRun rightRun
    refine same.group_eq shape (ScanGenerator.compiled_of_program compiled') ?_ leftRun rightRun
      le_rfl
    exact fun j upTo => reads j (upTo.trans same.left_inRange)

/-- The running example with another aggregate of its grouping variable. -/
def saleGeneratorMax : ScanGenerator :=
  { saleGenerator false with allAggregates := [⟨0, "count", "quant"⟩, ⟨1, "max", "quant"⟩] }

theorem scans_do_not_interfere_sale :
    ∃ program program' final final', (saleGenerator false).program = some program ∧
      saleGeneratorMax.program = some program' ∧
      program.runScans (saleGuards.interp [⟨"cust", .string⟩]) saleTable = some final ∧
      program'.runScans (saleGuards.interp [⟨"cust", .string⟩]) saleTable = some final' ∧
      final'.store.group 0 = final.store.group 0 := by
  obtain ⟨program, compiled⟩ := Option.isSome_iff_exists.mp
    (by rfl : ((saleGenerator false).program).isSome = true)
  obtain ⟨program', compiled'⟩ := Option.isSome_iff_exists.mp
    (by rfl : (saleGeneratorMax.program).isSome = true)
  have keyed := (saleQuery_keyedBy false).keyed (scanGenerator_saleQuery false)
  have keyedMax : Keyed saleGeneratorMax [⟨"cust", .string⟩] saleTable :=
    ⟨⟨keyed.parsed.plain_column, by decide⟩, keyed.names, keyed.typed, keyed.copied⟩
  have few : FewKeys ["cust"] saleTable := .of_length (by decide) _
  obtain ⟨final, finished, -⟩ := runScans_scanned keyed few
    (saleGuards.meantBy_interp _ _ _) (ScanGenerator.compiled_of_program compiled)
  obtain ⟨final', finished', -⟩ := runScans_scanned keyedMax few
    (saleGuards.meantBy_interp _ _ _) (ScanGenerator.compiled_of_program compiled')
  have interfere := scans_do_not_interfere (saleGenerator false) program
    (saleGuards.interp [⟨"cust", .string⟩]) compiled
    (fun i _ cond _ rows group group' agree => by
      simp only [Guards.interp, saleGuards.reads_smaller i group group' rows agree])
  refine ⟨program, program', final, final', compiled, compiled', finished, finished', ?_⟩
  refine interfere.2.2 saleGeneratorMax program' 0 compiled' ?_ saleTable final final' finished
    finished'
  exact ⟨by decide, by decide, rfl, rfl, rfl, rfl, by
    intro j upTo
    obtain rfl : j = 0 := by omega
    rfl, rfl⟩

end MfQuery
