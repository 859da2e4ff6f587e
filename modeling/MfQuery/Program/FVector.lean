import MfQuery.Program.Order

/-!
# The order of the F-vector

The updates of a scan stand in the order of the F-vector. Each of them writes
the field of its aggregate and reads nothing else of the record, so they can be
exchanged. Programs for the same query with a reordered F-vector therefore run
alike from every state, whatever the table and the guards are.
-/

namespace MfQuery

open Text

/-! ## Updates can be exchanged -/

/-- Two aggregates do not write the same field, or are the same. -/
def Aggregate.Apart (first second : Aggregate) : Prop :=
  first.update = .none ∨ second.update = .none ∨ (first.toVar = second.toVar → first = second)

theorem Aggregate.apply_exchange
    {first second : Aggregate}
    (apart : first.Apart second)
    (row : Row)
    (record : Record) :
    second.apply row (first.apply row record) = first.apply row (second.apply row record) := by
  rcases apart with unknown | unknown | own
  · simp only [Aggregate.apply, unknown]
  · simp only [Aggregate.apply, unknown]
  · by_cases sameVar : first.toVar = second.toVar
    · rw [own sameVar]
    · funext field
      by_cases isFirst : field = first.toVar
      · subst field
        rw [apply_of_ne sameVar, first.apply_toVar, first.apply_toVar, apply_of_ne sameVar]
      · by_cases isSecond : field = second.toVar
        · subst field
          rw [apply_of_ne isFirst, second.apply_toVar, second.apply_toVar, apply_of_ne isFirst]
        · simp only [apply_of_ne isFirst, apply_of_ne isSecond]

theorem applyAll_perm
    {bucket other : List Aggregate}
    (permuted : bucket.Perm other)
    (apart : ∀ first ∈ bucket, ∀ second ∈ bucket, first.Apart second)
    (row : Row) :
    applyAll bucket row = applyAll other row := by
  funext record
  apply permuted.foldl_eq'
  intro first firstMember second secondMember current
  exact Aggregate.apply_exchange (apart first firstMember second secondMember) row current

section Block

variable {interp : Interp} {i : Nat} {bucket other : List Aggregate} {machine : Machine}
  {source : Iter}

/-- Without a row of the loop no update is executed. -/
theorem execAll_updates_unbound
    (unbound : machine.row source = none) :
    execAll interp (bucket.map fun aggregate => .update aggregate source) machine =
      if bucket = [] then some machine else none := by
  cases bucket with
  | nil => rfl
  | cons aggregate bucket =>
      simp only [List.map_cons, execAll, exec, unbound, Option.bind_eq_bind, Option.bind_none,
        reduceCtorEq, if_false]

/-- Outside of the vector only updates of unknown functions are executed. -/
theorem execAll_updates_outside
    (own : ∀ aggregate ∈ bucket, aggregate.group = (i : Int))
    {row : Row}
    (bound : machine.row source = some row)
    (outside : ¬machine.pos < (machine.store.group i).length) :
    execAll interp (bucket.map fun aggregate => .update aggregate source) machine =
      if ∀ aggregate ∈ bucket, aggregate.update = .none then some machine else none := by
  induction bucket with
  | nil => simp [execAll]
  | cons aggregate bucket inductionHypothesis =>
      have target : aggregate.group.toNat = i := by
        have sameGroup := own aggregate (List.mem_cons_self ..)
        omega
      have later := inductionHypothesis fun other member =>
        own other (List.mem_cons_of_mem _ member)
      simp only [List.map_cons, execAll, exec, bound, Option.bind_eq_bind, Option.bind_some,
        updateAt, target, outside, if_false, List.forall_mem_cons]
      by_cases unknown : aggregate.update = .none
      · simp only [unknown, if_true, Option.bind_some, later, true_and]
      · simp only [unknown, if_false, Option.bind_none, false_and]

/-- The updates of a bucket in any order. -/
theorem exec_updates_perm
    (permuted : bucket.Perm other)
    (own : ∀ aggregate ∈ bucket, aggregate.group = (i : Int))
    (apart : ∀ first ∈ bucket, ∀ second ∈ bucket, first.Apart second) :
    exec interp (.block (bucket.map fun aggregate => .update aggregate source)) =
      exec interp (.block (other.map fun aggregate => .update aggregate source)) := by
  funext machine
  have otherOwn : ∀ aggregate ∈ other, aggregate.group = (i : Int) :=
    fun aggregate member => own aggregate (permuted.mem_iff.mpr member)
  rw [exec_block, exec_block]
  cases bound : machine.row source with
  | none =>
      have none : bucket = [] ↔ other = [] := by
        rw [← List.length_eq_zero_iff, ← List.length_eq_zero_iff, permuted.length_eq]
      simp only [execAll_updates_unbound bound, none]
  | some row =>
      by_cases inside : machine.pos < (machine.store.group i).length
      · rw [execAll_updates interp own machine bound inside,
          execAll_updates interp otherOwn machine bound inside, applyAll_perm permuted apart]
      · simp only [execAll_updates_outside own bound inside,
          execAll_updates_outside otherOwn bound inside, permuted.mem_iff]

end Block

/-! ## Programs of reordered F-vectors -/

namespace ScanGenerator

/-- The generator with another list of aggregates. -/
def withAggregates (generator : ScanGenerator) (aggregates : List Aggregate) : ScanGenerator :=
  { generator with allAggregates := aggregates }

section Reordered

variable {generator : ScanGenerator} {aggregates : List Aggregate}
  (permuted : generator.allAggregates.Perm aggregates)
include permuted

theorem bucket_perm (i : Nat) :
    (generator.bucket i).Perm ((generator.withAggregates aggregates).bucket i) :=
  permuted.filter _

theorem groupsInRange_iff :
    generator.GroupsInRange ↔ (generator.withAggregates aggregates).GroupsInRange :=
  forall_congr' fun _ => imp_congr_left permuted.mem_iff

/-- A scan runs alike. -/
theorem exec_modeScanStmt_perm
    (parsed : generator.Parsed)
    (interp : Interp)
    (i : Nat)
    (cond : Text) :
    exec interp (generator.modeScanStmt i (generator.bucket i) cond) =
      exec interp ((generator.withAggregates aggregates).modeScanStmt i
        ((generator.withAggregates aggregates).bucket i) cond) := by
  have own : ∀ aggregate ∈ generator.bucket i, aggregate.group = (i : Int) :=
    fun aggregate member => of_decide_eq_true (List.mem_filter.mp member).2
  have apart : ∀ first ∈ generator.bucket i, ∀ second ∈ generator.bucket i,
      first.Apart second := by
    intro first firstMember second secondMember
    by_cases unknown : second.update = .none
    · exact .inr (.inl unknown)
    · exact .inr (.inr (parsed.ownField (own second secondMember) unknown first firstMember))
  have updates (source : Iter) := @exec_updates_perm interp i _ _ source
    (bucket_perm permuted i) own apart
  have mode : (generator.withAggregates aggregates).emf = generator.emf := rfl
  funext machine
  unfold modeScanStmt
  rw [mode]
  cases generator.emf with
  | true => simp only [if_true, emfScanStmt, exec, updates]
  | false =>
      simp only [Bool.false_eq_true, if_false, scanStmt, exec, updates]
      rfl

/-- The scans run alike, one after the other. -/
theorem execAll_scanStmts_perm
    (parsed : generator.Parsed)
    (interp : Interp)
    (i count : Nat) :
    (generator.scanStmts i ((List.range' i count).map generator.bucket)).map (execAll interp) =
      ((generator.withAggregates aggregates).scanStmts i ((List.range' i count).map
        (generator.withAggregates aggregates).bucket)).map (execAll interp) := by
  induction count generalizing i with
  | zero => rfl
  | succ count inductionHypothesis =>
      have later := inductionHypothesis (i + 1)
      have condition : (generator.withAggregates aggregates).getSelectionCond i =
          generator.getSelectionCond i := rfl
      rw [List.range'_succ, List.map_cons, List.map_cons, scanStmts, scanStmts, condition]
      cases generator.getSelectionCond i with
      | none => rfl
      | some cond =>
          have here := exec_modeScanStmt_perm permuted parsed interp i cond
          simp only [Option.bind_eq_bind, Option.bind_some]
          cases rest : generator.scanStmts (i + 1)
              ((List.range' (i + 1) count).map generator.bucket) with
          | none =>
              rw [rest] at later
              rw [Option.map_eq_none_iff.mp later.symm]
              rfl
          | some statements =>
              rw [rest] at later
              obtain ⟨others, found, same⟩ := Option.map_eq_some_iff.mp later.symm
              rw [found]
              simp only [Option.bind_some, Option.pure_def, Option.map_some, Option.some.injEq]
              funext machine
              simp only [execAll, here, same]

/-- The programs run alike, and their last passes are the same. -/
theorem program_perm
    (parsed : generator.Parsed)
    (interp : Interp) :
    (generator.program).map (fun program => (program.runScans interp, program.fill)) =
      ((generator.withAggregates aggregates).program).map
        fun program => (program.runScans interp, program.fill) := by
  have having : (generator.withAggregates aggregates).parseHaving = generator.parseHaving := rfl
  by_cases inRange : generator.GroupsInRange
  · have scans := execAll_scanStmts_perm permuted parsed interp 0 (generator.noGroupingVars + 1)
    rw [← List.range_eq_range'] at scans
    rw [program, program, groupAggregates_eq inRange,
      groupAggregates_eq ((groupsInRange_iff permuted).mp inRange), having]
    simp only [Option.bind_eq_bind, Option.bind_some]
    cases found : generator.scanStmts 0
        ((List.range (generator.noGroupingVars + 1)).map generator.bucket) with
    | none =>
        rw [found] at scans
        rw [show (generator.withAggregates aggregates).noGroupingVars = generator.noGroupingVars
          from rfl, Option.map_eq_none_iff.mp scans.symm]
        rfl
    | some statements =>
        rw [found] at scans
        obtain ⟨others, otherFound, same⟩ := Option.map_eq_some_iff.mp scans.symm
        rw [show (generator.withAggregates aggregates).noGroupingVars = generator.noGroupingVars
          from rfl, otherFound]
        cases generator.parseHaving with
        | none => rfl
        | some having =>
            simp only [Option.bind_some, Option.pure_def, Option.map_some, Option.some.injEq,
              Prod.mk.injEq]
            refine ⟨funext fun table => ?_, rfl⟩
            simp only [Program.runScans, same]
            rfl
  · have none : ∀ {other : ScanGenerator}, ¬other.GroupsInRange → other.groupAggregates = none :=
      fun absent => Option.eq_none_iff_forall_ne_some.mpr fun groups grouped =>
        absent (groupsInRange_of_groupAggregates grouped)
    rw [program, program, none inRange, none (mt (groupsInRange_iff permuted).mpr inRange)]
    rfl

end Reordered

end ScanGenerator

/-- Reading the entries of a list in another order. -/
theorem mapM_perm
    {Entry Result : Type}
    {read : Entry → Option Result}
    {entries others : List Entry}
    (permuted : entries.Perm others)
    {results : List Result}
    (found : entries.mapM read = some results) :
    ∃ otherResults, others.mapM read = some otherResults ∧ results.Perm otherResults := by
  induction permuted generalizing results with
  | nil => exact ⟨[], rfl, by cases found; exact .nil⟩
  | cons entry permuted inductionHypothesis =>
      simp only [List.mapM_cons, Option.bind_eq_bind, Option.bind_eq_some_iff] at found
      obtain ⟨first, isFirst, rest, isRest, shape⟩ := found
      cases shape
      obtain ⟨otherResults, otherFound, same⟩ := inductionHypothesis isRest
      exact ⟨first :: otherResults, by simp [isFirst, otherFound], same.cons first⟩
  | swap first second rest =>
      simp only [List.mapM_cons, Option.bind_eq_bind, Option.bind_eq_some_iff] at found
      obtain ⟨_, isSecond, _, ⟨_, isFirst, tail, isTail, shape⟩, outer⟩ := found
      cases shape
      cases outer
      exact ⟨_, by simp only [List.mapM_cons, isFirst, isSecond, isTail, Option.bind_eq_bind,
        Option.bind_some, Option.pure_def], .swap ..⟩
  | trans _ _ firstHypothesis secondHypothesis =>
      obtain ⟨middle, isMiddle, firstSame⟩ := firstHypothesis found
      obtain ⟨last, isLast, secondSame⟩ := secondHypothesis isMiddle
      exact ⟨last, isLast, firstSame.trans secondSame⟩

/-- The query with its F-vector in another order. -/
def Query.withFVect (query : Query) (fVect : List Text) : Query := { query with fVect := fVect }

theorem Query.scanGenerator_perm
    {query : Query}
    {fVect : List Text}
    (permuted : query.fVect.Perm fVect)
    {generator : ScanGenerator}
    (built : query.scanGenerator = some generator) :
    ∃ aggregates, generator.allAggregates.Perm aggregates ∧
      (query.withFVect fVect).scanGenerator = some (generator.withAggregates aggregates) := by
  obtain ⟨allAggregates, _, _, all, select, conditions, rfl⟩ :=
    (query.scanGenerator_eq_some_iff generator).mp built
  obtain ⟨aggregates, read, same⟩ := mapM_perm permuted all
  exact ⟨aggregates, same, ((query.withFVect fVect).scanGenerator_eq_some_iff _).mpr
    ⟨aggregates, _, _, read, select, conditions, rfl⟩⟩

/-- The order of the F-vector does not matter: for every query and every table
the program prints the same. -/
theorem output_ignores_fVect_order
    (query : Query)
    (fVect : List Text)
    (permuted : query.fVect.Perm fVect)
    (table : List Row) :
    (query.withFVect fVect).output table = query.output table := by
  cases built : query.scanGenerator with
  | none =>
      have otherBuilt : (query.withFVect fVect).scanGenerator = none := by
        rw [Option.eq_none_iff_forall_ne_some]
        intro generator found
        obtain ⟨aggregates, -, back⟩ :=
          @Query.scanGenerator_perm (query.withFVect fVect) query.fVect permuted.symm _ found
        cases built.symm.trans back
      simp only [Query.output, built, otherBuilt, Option.bind_eq_bind, Option.bind_none]
      rfl
  | some generator =>
      obtain ⟨aggregates, same, otherBuilt⟩ := Query.scanGenerator_perm permuted built
      have parsed := Query.parsed_scanGenerator built
      simp only [Query.output, built, otherBuilt, Option.bind_eq_bind, Option.bind_some]
      change (getCt query.groupingAttr query.columns).bind _ = _
      congr 1
      funext cols
      have alike := ScanGenerator.program_perm same parsed (cppInterp cols)
      cases compiled : generator.program with
      | none =>
          rw [compiled] at alike
          rw [Option.map_eq_none_iff.mp alike.symm]
          rfl
      | some program =>
          rw [compiled] at alike
          obtain ⟨other, otherCompiled, behaviour⟩ := Option.map_eq_some_iff.mp alike.symm
          obtain ⟨scans, fill⟩ := Prod.mk.inj behaviour
          simp only [otherCompiled, Option.bind_some, scans, fill]
          rfl

/-- The two aggregates of the running example exchanged. -/
theorem output_ignores_fVect_order_sale :
    ((saleQuery false).withFVect ["1_sum_quant", "count_quant"]).output saleTable =
      (saleQuery false).output saleTable :=
  output_ignores_fVect_order (saleQuery false) ["1_sum_quant", "count_quant"] (.swap ..) saleTable

end MfQuery
