import MfQuery.Lib.Scatter
import MfQuery.Program.Lockstep

/-!
# Running the scans

In both modes the scan of group `i` gathers: the record of every kept row is
updated with the aggregates of the group, once for each table row that the
kept row selects. An MF scan selects the admitted rows with the key of the
kept row, through a lookup of their key; an EMF scan selects the rows admitted
together with the kept row, through a nested loop.
-/

namespace MfQuery

open Text

/-- The rows the iterators point at. -/
def rowsOf (it xt : Option Row) : Iter → Option Row
  | .it => it
  | .xt => xt

/-- One table row updates the aggregates of a bucket. -/
def applyAll (bucket : List Aggregate) (row : Row) (record : Record) : Record :=
  bucket.foldl (fun current aggregate => aggregate.apply row current) record

theorem applyAll_cons
    (aggregate : Aggregate)
    (bucket : List Aggregate)
    (row : Row) :
    applyAll (aggregate :: bucket) row = applyAll bucket row ∘ aggregate.apply row := rfl

@[simp] theorem Store.setGroup_group_self
    (store : Store)
    (k : Nat)
    (vector : List Record) :
    (store.setGroup k vector).group k = vector := by
  simp [Store.setGroup]

theorem Store.setGroup_group_of_ne
    {k j : Nat}
    (different : j ≠ k)
    (store : Store)
    (vector : List Record) :
    (store.setGroup k vector).group j = store.group j := by
  simp [Store.setGroup, different]

@[simp] theorem Store.setGroup_setGroup
    (store : Store)
    (k : Nat)
    (first second : List Record) :
    (store.setGroup k first).setGroup k second = store.setGroup k second := by
  simp [Store.setGroup]

@[simp] theorem Store.setGroup_self
    (store : Store)
    (k : Nat) :
    store.setGroup k (store.group k) = store := by
  simp [Store.setGroup]

/-! ## Updates -/

theorem updateAt_eq
    {aggregate : Aggregate}
    {i : Nat}
    (own : aggregate.group = (i : Int))
    (row : Row)
    {machine : Machine}
    (inside : machine.pos < (machine.store.group i).length) :
    updateAt aggregate row machine =
      some { machine with
        store := machine.store.setGroup i
          ((machine.store.group i).modify machine.pos (aggregate.apply row)) } := by
  have target : aggregate.group.toNat = i := by omega
  simp only [updateAt, target, inside, if_true]
  split_ifs with unknown
  · have unchanged : aggregate.apply row = id := by
      funext record
      simp [Aggregate.apply, unknown]
    simp [unchanged]
  · rfl

/-- The updates of a bucket change the record at `pos`. -/
theorem execAll_updates
    (interp : Interp)
    {i : Nat}
    {bucket : List Aggregate}
    (own : ∀ aggregate ∈ bucket, aggregate.group = (i : Int))
    {source : Iter}
    {row : Row}
    (machine : Machine)
    (bound : machine.row source = some row)
    (inside : machine.pos < (machine.store.group i).length) :
    execAll interp (bucket.map fun aggregate => .update aggregate source) machine =
      some { machine with
        store := machine.store.setGroup i
          ((machine.store.group i).modify machine.pos (applyAll bucket row)) } := by
  induction bucket generalizing machine with
  | nil =>
      have unchanged : applyAll [] row = id := rfl
      simp [execAll, unchanged]
  | cons aggregate bucket inductionHypothesis =>
      have stepped := updateAt_eq (own aggregate (List.mem_cons_self ..)) row inside
      have later := inductionHypothesis
        (fun other member => own other (List.mem_cons_of_mem _ member))
        { machine with
          store := machine.store.setGroup i
            ((machine.store.group i).modify machine.pos (aggregate.apply row)) }
        bound (by simpa using inside)
      simp only [Store.setGroup_group_self, Store.setGroup_setGroup] at later
      simp only [List.map_cons, execAll, exec, bound, Option.bind_eq_bind, Option.bind_some,
        stepped, later, applyAll_cons]
      congr 3
      rw [List.modify_modify_eq]

/-! ## The scan of one group -/

section Scan

variable {interp : Interp} {generator : ScanGenerator} {table : List Row}
  {i : Nat} {bucket : List Aggregate} {cond : Text} {machine : Machine}

/-- Where an MF scan finds the record of a row. -/
def keyTarget
    (groupingAttr : List Text)
    (table : List Row)
    (admits : Row → Bool)
    (row : Row) : Option Nat :=
  if admits row then
    some (keyIndex (keyOf groupingAttr) (firsts (keyOf groupingAttr) table)
      (keyOf groupingAttr row))
  else none

/-- The rows an MF scan selects for a kept row. -/
def keySelects
    (groupingAttr : List Text)
    (admits : Row → Bool)
    (kept row : Row) : Bool :=
  decide (keyOf groupingAttr row = keyOf groupingAttr kept) && admits row

/-- An MF scan reaches the record of a kept row exactly from the rows it
selects. -/
theorem keyTarget_eq_some_iff
    {groupingAttr : List Text}
    {admits : Row → Bool}
    {position : Nat}
    (inside : position < (firsts (keyOf groupingAttr) table).length)
    (row : Row) :
    keyTarget groupingAttr table admits row = some position ↔
      keySelects groupingAttr admits
        ((firsts (keyOf groupingAttr) table).get ⟨position, inside⟩) row = true := by
  have nodup := FirstOccurrence.nodup_map_firsts (keyOf groupingAttr) table
  simp only [keyTarget, keySelects, Bool.and_eq_true, decide_eq_true_eq]
  cases admits row with
  | false => simp
  | true =>
      simp only [if_true, Option.some.injEq, and_true]
      constructor
      · rintro rfl
        exact (FirstOccurrence.key_getElem_keyIndex _ inside).symm
      · intro sameKey
        rw [sameKey]
        exact FirstOccurrence.keyIndex_getElem _ nodup inside

/-- The state the scan of a group is entered in. -/
structure ScanReady
    (generator : ScanGenerator)
    (table : List Row)
    (machine : Machine) : Prop where
  lockstep : Lockstep generator machine.store
  data_eq : machine.store.data = table
  uniques_eq : machine.store.uniques = firsts (keyOf generator.groupingAttr) table
  idle : machine.row = rowsOf none none

/-- One row of an MF scan. -/
theorem exec_scanBody
    (keyed : Keyed generator interp.cols table)
    (few : FewKeys generator.groupingAttr table)
    (inRange : i ≤ generator.noGroupingVars)
    (own : ∀ aggregate ∈ bucket, aggregate.group = (i : Int))
    (machine : Machine)
    {row : Row}
    (member : row ∈ table)
    (bound : machine.row .it = some row)
    (lockstep : Lockstep generator machine.store)
    (uniques : machine.store.uniques = firsts (keyOf generator.groupingAttr) table)
    {admits : Row → Bool}
    (guarded : interp.guard i cond machine.row machine.store.group = some (admits row)) :
    ∃ next, exec interp (.seq .declarePos (.guarded i cond
        (.seq (.findPos i generator.groupingAttr)
          (.block (bucket.map fun aggregate => .update aggregate .it))))) machine = some next ∧
      next.store = machine.store.setGroup i
        (scatterStep (keyTarget generator.groupingAttr table admits) (applyAll bucket)
          (machine.store.group i) row) ∧
      next.row = machine.row := by
  have follows := lockstep.groups i inRange
  rw [uniques] at follows
  have position := keyed.toSizeT_vfind few follows member
  have inside := FirstOccurrence.keyIndex_firsts_lt (keyOf generator.groupingAttr)
    (List.mem_map_of_mem member)
  rw [follows.length_eq] at inside
  simp only [exec, Option.bind_eq_bind, Option.bind_some, guarded]
  cases admitted : admits row with
  | false => exact ⟨machine, by simp, by simp [scatterStep, keyTarget, admitted], rfl⟩
  | true =>
      let located : Machine := { machine with
        pos := keyIndex (keyOf generator.groupingAttr)
          (firsts (keyOf generator.groupingAttr) table) (keyOf generator.groupingAttr row) }
      have updated := execAll_updates interp own located bound inside
      refine ⟨{ located with
        store := machine.store.setGroup i
          ((machine.store.group i).modify located.pos (applyAll bucket row)) }, ?_, ?_, rfl⟩
      · simp only [bound, Option.bind_some, exec_block, Option.pure_def, if_true]
        rw [show generator.groupingAttr.map row = keyOf generator.groupingAttr row from rfl,
          position]
        exact updated
      · simp [scatterStep, keyTarget, admitted, located]

/-- The scan of a group in an MF program. -/
theorem exec_scanStmt
    (keyed : Keyed generator interp.cols table)
    (few : FewKeys generator.groupingAttr table)
    (ready : ScanReady generator table machine)
    (inRange : i ≤ generator.noGroupingVars)
    (own : ∀ aggregate ∈ bucket, aggregate.group = (i : Int))
    {admits : Row → Bool}
    (guarded : ∀ row ∈ table, ∀ group : Nat → List Record,
      (∀ j < i, group j = machine.store.group j) →
        interp.guard i cond (rowsOf (some row) none) group = some (admits row)) :
    ∃ final, exec interp (generator.scanStmt i bucket cond) machine = some final ∧
      final.store = machine.store.setGroup i
        (gather (keySelects generator.groupingAttr admits) (applyAll bucket) table
          machine.store.uniques (machine.store.group i)) ∧
      final.row = machine.row := by
  have gathered : gather (keySelects generator.groupingAttr admits) (applyAll bucket) table
      machine.store.uniques (machine.store.group i) =
        scatter (keyTarget generator.groupingAttr table admits) (applyAll bucket) table
          (machine.store.group i) := by
    have sameLength := ready.lockstep.length_group inRange
    rw [ready.uniques_eq] at sameLength ⊢
    exact (Scatter.scatter_eq_gather _ _ sameLength.symm fun position inside row _ =>
      keyTarget_eq_some_iff inside row).symm
  rw [gathered]
  obtain ⟨final, finished, finalStore, -, -⟩ := iterate_induction .scan
    (exec interp (.seq .declarePos (.guarded i cond
      (.seq (.findPos i generator.groupingAttr)
        (.block (bucket.map fun aggregate => .update aggregate .it))))))
    (fun visited current =>
      current.store = machine.store.setGroup i
        (scatter (keyTarget generator.groupingAttr table admits) (applyAll bucket) visited
          (machine.store.group i)) ∧
      Lockstep generator current.store ∧ current.row .xt = none)
    table machine ⟨by simp [scatter], ready.lockstep, by rw [ready.idle]; rfl⟩
    (by
      rintro visited row rest current shape ⟨store, lockstep, xtFree⟩
      have member : row ∈ table := by simp [shape]
      have rows : (current.enter .scan row visited.length).row = rowsOf (some row) none := by
        funext iter
        cases iter
        · simp [Machine.enter, Loop.iter, rowsOf]
        · simpa [Machine.enter, Loop.iter, rowsOf] using xtFree
      have admitted : interp.guard i cond (current.enter .scan row visited.length).row
          current.store.group = some (admits row) := by
        rw [rows]
        refine guarded row member current.store.group fun j smaller => ?_
        rw [store, Store.setGroup_group_of_ne (by omega)]
      obtain ⟨next, stepped, nextStore, nextRow⟩ := exec_scanBody keyed few inRange own
        (current.enter .scan row visited.length) member (by rw [rows]; rfl) lockstep
        (by rw [← ready.uniques_eq]; simp [Machine.enter, store, Store.setGroup]) admitted
      refine ⟨next, stepped, ?_, ?_, ?_⟩
      · rw [nextStore, Scatter.scatter_concat]
        simp [Machine.enter, store]
      · have writes : (Stmt.seq .declarePos (.guarded i cond
            (.seq (.findPos i generator.groupingAttr)
              (.block (bucket.map fun aggregate => .update aggregate .it))))).WritesOnly
            (· = i) := ⟨trivial, trivial, writesOnly_updates own .it⟩
        have kept := exec_keeps writes stepped
        exact lockstep.keep keyed.parsed.plain_column kept
      · rw [nextRow, rows]
        rfl)
  refine ⟨final.leave machine, ?_, finalStore, rfl⟩
  rw [ScanGenerator.scanStmt, exec, Loop.vector, ready.data_eq, finished]
  rfl

/-- One table row of an EMF scan, at the kept row with index `offset`. -/
theorem exec_emfScanBody
    (own : ∀ aggregate ∈ bucket, aggregate.group = (i : Int))
    (machine : Machine)
    {row : Row}
    (bound : machine.row .xt = some row)
    (inside : machine.offset < (machine.store.group i).length)
    {admits : Row → Bool}
    (guarded : interp.guard i cond machine.row machine.store.group = some (admits row)) :
    ∃ next, exec interp (.guarded i cond (.seq .offsetPos
        (.block (bucket.map fun aggregate => .update aggregate .xt)))) machine = some next ∧
      next.store = machine.store.setGroup i
        (scatterStep (fun other => if admits other then some machine.offset else none)
          (applyAll bucket) (machine.store.group i) row) ∧
      next.row = machine.row ∧ next.offset = machine.offset := by
  simp only [exec, Option.bind_eq_bind, guarded]
  cases admitted : admits row with
  | false => exact ⟨machine, by simp, by simp [scatterStep, admitted], rfl, rfl⟩
  | true =>
      let located : Machine := { machine with pos := machine.offset }
      have updated := execAll_updates interp own located bound inside
      refine ⟨{ located with
        store := machine.store.setGroup i
          ((machine.store.group i).modify located.pos (applyAll bucket row)) },
        ?_, ?_, rfl, rfl⟩
      · simp only [Option.bind_some, exec_block, if_true]
        exact updated
      · simp [scatterStep, admitted, located]

/-- The inner loop of an EMF scan folds the record of the kept row over the
table rows admitted with it. -/
theorem exec_emfInner
    (own : ∀ aggregate ∈ bucket, aggregate.group = (i : Int))
    (machine : Machine)
    (data : machine.store.data = table)
    {kept : Row}
    (bound : machine.row = rowsOf (some kept) none)
    (inside : machine.offset < (machine.store.group i).length)
    {admits : Row → Bool}
    (guarded : ∀ row ∈ table, ∀ group : Nat → List Record,
      (∀ j < i, group j = machine.store.group j) →
        interp.guard i cond (rowsOf (some kept) (some row)) group = some (admits row)) :
    ∃ final, exec interp (.loop .emfInner (.guarded i cond (.seq .offsetPos
        (.block (bucket.map fun aggregate => .update aggregate .xt))))) machine = some final ∧
      final.store = machine.store.setGroup i
        ((machine.store.group i).modify machine.offset fun initial =>
          (table.filter admits).foldl (fun record row => applyAll bucket row record) initial) ∧
      final.row = machine.row ∧ final.offset = machine.offset := by
  rw [← Scatter.scatter_const]
  obtain ⟨final, finished, finalStore, -, -⟩ := iterate_induction .emfInner
    (exec interp (.guarded i cond (.seq .offsetPos
      (.block (bucket.map fun aggregate => .update aggregate .xt)))))
    (fun visited current =>
      current.store = machine.store.setGroup i
        (scatter (fun other => if admits other then some machine.offset else none)
          (applyAll bucket) visited (machine.store.group i)) ∧
      current.row .it = some kept ∧ current.offset = machine.offset)
    table machine ⟨by simp [scatter], by rw [bound]; rfl, rfl⟩
    (by
      rintro visited row rest current shape ⟨store, itBound, offset⟩
      have member : row ∈ table := by simp [shape]
      have rows : (current.enter .emfInner row visited.length).row =
          rowsOf (some kept) (some row) := by
        funext iter
        cases iter
        · simpa [Machine.enter, Loop.iter, rowsOf] using itBound
        · simp [Machine.enter, Loop.iter, rowsOf]
      have enteredOffset : (current.enter .emfInner row visited.length).offset =
          machine.offset := offset
      have admitted : interp.guard i cond (current.enter .emfInner row visited.length).row
          current.store.group = some (admits row) := by
        rw [rows]
        refine guarded row member current.store.group fun j smaller => ?_
        rw [store, Store.setGroup_group_of_ne (by omega)]
      obtain ⟨next, stepped, nextStore, nextRow, nextOffset⟩ := exec_emfScanBody own
        (current.enter .emfInner row visited.length) (by rw [rows]; rfl)
        (by rw [enteredOffset]; simpa [Machine.enter, store] using inside) admitted
      refine ⟨next, stepped, ?_, ?_, nextOffset.trans enteredOffset⟩
      · rw [nextStore, Scatter.scatter_concat, enteredOffset]
        simp [Machine.enter, store]
      · rw [nextRow, rows]
        rfl)
  refine ⟨final.leave machine, ?_, finalStore, rfl, rfl⟩
  rw [exec, Loop.vector, data, finished]
  rfl

/-- The scan of a group in an EMF program. -/
theorem exec_emfScanStmt
    (ready : ScanReady generator table machine)
    (inRange : i ≤ generator.noGroupingVars)
    (own : ∀ aggregate ∈ bucket, aggregate.group = (i : Int))
    {admits : Row → Row → Bool}
    (guarded : ∀ kept ∈ machine.store.uniques, ∀ row ∈ table, ∀ group : Nat → List Record,
      (∀ j < i, group j = machine.store.group j) →
        interp.guard i cond (rowsOf (some kept) (some row)) group = some (admits kept row)) :
    ∃ final, exec interp (ScanGenerator.emfScanStmt i bucket cond) machine = some final ∧
      final.store = machine.store.setGroup i
        (gather admits (applyAll bucket) table machine.store.uniques (machine.store.group i)) ∧
      final.row = machine.row := by
  have sameLength := (ready.lockstep.length_group inRange).symm
  -- behind the visited kept rows the vector is still as it was
  obtain ⟨final, finished, finalStore, -⟩ := iterate_induction .emfOuter
    (exec interp (.loop .emfInner (.guarded i cond (.seq .offsetPos
      (.block (bucket.map fun aggregate => .update aggregate .xt))))))
    (fun visited current =>
      current.store = machine.store.setGroup i
        (gather admits (applyAll bucket) table visited
            ((machine.store.group i).take visited.length) ++
          (machine.store.group i).drop visited.length) ∧
      current.row .xt = none)
    machine.store.uniques machine ⟨by simp [gather], by rw [ready.idle]; rfl⟩
    (by
      rintro visited kept rest current shape ⟨store, xtFree⟩
      have member : kept ∈ machine.store.uniques := by simp [shape]
      have rows : (current.enter .emfOuter kept visited.length).row =
          rowsOf (some kept) none := by
        funext iter
        cases iter
        · simp [Machine.enter, Loop.iter, rowsOf]
        · simpa [Machine.enter, Loop.iter, rowsOf] using xtFree
      have data : (current.enter .emfOuter kept visited.length).store.data = table := by
        simp [Machine.enter, store, Store.setGroup, ready.data_eq]
      have below : visited.length < (machine.store.group i).length := by
        rw [← sameLength, shape]
        simp
      have visitedLength : visited.length =
          ((machine.store.group i).take visited.length).length := by
        rw [List.length_take]
        omega
      obtain ⟨next, stepped, nextStore, nextRow, -⟩ := exec_emfInner own
        (current.enter .emfOuter kept visited.length) data rows
        (by
          have length := Scatter.length_gather (applyAll bucket) admits table visitedLength
          simp only [Machine.enter, store, Store.setGroup_group_self, Loop.iter,
            List.length_append, length, List.length_take, List.length_drop]
          omega)
        (fun row inTable group agree => guarded kept member row inTable group
          fun j smaller => by
            rw [agree j smaller]
            simp [Machine.enter, store, Store.setGroup_group_of_ne (Nat.ne_of_lt smaller)])
      refine ⟨next, stepped, ?_, by rw [nextRow, rows]; rfl⟩
      have advanced := Scatter.modify_gather_append_drop (applyAll bucket) admits table visited
        kept below
      rw [List.length_append, List.length_singleton, ← advanced, nextStore]
      simp [Machine.enter, store, Loop.iter])
  refine ⟨final.leave machine, ?_, ?_, rfl⟩
  · rw [ScanGenerator.emfScanStmt, exec, Loop.vector, finished]
    rfl
  · rw [sameLength, List.take_length, List.drop_length, List.append_nil] at finalStore
    exact finalStore

end Scan
end MfQuery
