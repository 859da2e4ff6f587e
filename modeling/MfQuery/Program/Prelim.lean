import MfQuery.Lib.FirstOccurrence
import MfQuery.Program.Semantics

/-!
# The first pass

The first pass keeps one table row per key and builds, for each of them, a
result record and one record in every group vector, all with the same plain
columns. Keys are compared at the types found for the grouping attributes;
when these are integer or string types and the table stores values of them,
the emitted comparisons are equality of keys.
-/

namespace MfQuery

open Text

/-! ## Keys -/

/-- The key of a record: its grouping attributes in order. -/
def keyOf (groupingAttr : List Text) (record : Record) : List Value :=
  groupingAttr.map record

/-- A value stored in a column of a key type. -/
def Value.HasType : CppType → Value → Prop
  | .string, value => ∃ text, value = .str text
  | .int64, value => ∃ number, value = .int number
  | _, _ => False

/-- The key columns have integer or string type, and the rows store values of
it. -/
def KeyTyped (cols : List Ct) (rows : List Row) : Prop :=
  ∀ col ∈ cols, (col.type = .string ∨ col.type = .int64) ∧
    ∀ row ∈ rows, (row col.name).HasType col.type

theorem KeyTyped.subset
    {cols : List Ct}
    {rows fewer : List Row}
    (typed : KeyTyped cols rows)
    (subset : ∀ row ∈ fewer, row ∈ rows) :
    KeyTyped cols fewer :=
  fun col member => ⟨(typed col member).1, fun row kept =>
    (typed col member).2 row (subset row kept)⟩

/-- Comparison at a key type is equality of values of that type. -/
theorem keyEq_eq_true_iff
    {type : CppType}
    {left right : Value}
    (leftTyped : left.HasType type)
    (rightTyped : right.HasType type) :
    keyEq type left right = true ↔ left = right := by
  cases type with
  | string =>
      obtain ⟨leftText, rfl⟩ := leftTyped
      obtain ⟨rightText, rfl⟩ := rightTyped
      rw [Value.str.injEq]
      exact decide_eq_true_iff
  | int64 =>
      obtain ⟨leftNumber, rfl⟩ := leftTyped
      obtain ⟨rightNumber, rfl⟩ := rightTyped
      rw [Value.int.injEq]
      exact decide_eq_true_iff
  | float | double | date | raw | vector => exact leftTyped.elim

/-- The comparison of `is_unique` is equality of keys. -/
theorem sameKey_eq_true_iff
    {cols : List Ct}
    {left right : Row}
    (typed : KeyTyped cols [left, right]) :
    sameKey cols left right = true ↔
      keyOf (cols.map Ct.name) left = keyOf (cols.map Ct.name) right := by
  simp only [sameKey, List.all_eq_true, keyOf, List.map_map, List.map_inj_left,
    Function.comp_apply]
  constructor
  · intro equal col member
    have types := (typed col member).2
    exact (keyEq_eq_true_iff (types left (by simp)) (types right (by simp))).mp
      (equal col member)
  · intro equal col member
    have types := (typed col member).2
    exact (keyEq_eq_true_iff (types left (by simp)) (types right (by simp))).mpr
      (equal col member)

/-- Looking up the key of a row compares as `is_unique` does. -/
theorem argumentsMatch_keyOf
    (cols : List Ct)
    (row record : Record) :
    argumentsMatch cols (keyOf (cols.map Ct.name) row) record = sameKey cols row record := by
  induction cols with
  | nil => rfl
  | cons col cols inductionHypothesis =>
      simp only [argumentsMatch, keyOf, sameKey, List.map_cons, List.zip_cons_cons,
        List.all_cons] at inductionHypothesis ⊢
      rw [inductionHypothesis]

/-- The comparison of `vfind<i>` is equality of keys. -/
theorem argumentsMatch_eq_true_iff
    {cols : List Ct}
    {row record : Record}
    (typed : KeyTyped cols [row, record]) :
    argumentsMatch cols (keyOf (cols.map Ct.name) row) record = true ↔
      keyOf (cols.map Ct.name) record = keyOf (cols.map Ct.name) row := by
  rw [argumentsMatch_keyOf, sameKey_eq_true_iff typed, eq_comm]

/-- `get_uniques` keeps the first row of every key. -/
theorem getUniques_eq_firsts
    {cols : List Ct}
    {rows : List Row}
    (typed : KeyTyped cols rows) :
    getUniques cols rows = firsts (keyOf (cols.map Ct.name)) rows := by
  unfold getUniques firsts
  -- the rows kept so far come from the table, so their comparison is exact
  suffices general : ∀ rest out : List Row, (∀ row ∈ rest, row ∈ rows) →
      (∀ row ∈ out, row ∈ rows) →
      rest.foldl (fun out entry => if isUnique cols out entry then out ++ [entry] else out) out =
        rest.foldl (keepFirst (keyOf (cols.map Ct.name))) out by
    exact general rows [] (fun _ member => member) (by simp)
  intro rest
  induction rest with
  | nil => intro out _ _; rfl
  | cons entry rest inductionHypothesis =>
      intro out fromTable kept
      have entryFrom := fromTable entry (List.mem_cons_self ..)
      have unique : isUnique cols out entry = true ↔
          keyOf (cols.map Ct.name) entry ∉ out.map (keyOf (cols.map Ct.name)) := by
        simp only [isUnique, Bool.not_eq_true', List.any_eq_false, List.mem_map, not_exists,
          not_and]
        constructor
        · intro different row member equal
          have typedPair : KeyTyped cols [entry, row] := typed.subset (by
            simp [entryFrom, kept row member])
          exact different row member ((sameKey_eq_true_iff typedPair).mpr equal.symm)
        · intro different row member same
          have typedPair : KeyTyped cols [entry, row] := typed.subset (by
            simp [entryFrom, kept row member])
          exact different row member ((sameKey_eq_true_iff typedPair).mp same).symm
      have stepped : (if isUnique cols out entry then out ++ [entry] else out) =
          keepFirst (keyOf (cols.map Ct.name)) out entry := by
        unfold keepFirst
        by_cases present : keyOf (cols.map Ct.name) entry ∈ out.map (keyOf (cols.map Ct.name))
        · have notUnique : ¬isUnique cols out entry = true := fun holds => unique.mp holds present
          simp [present, notUnique]
        · rw [if_pos (unique.mpr present), if_neg present]
      simp only [List.foldl_cons, stepped]
      apply inductionHypothesis
      · exact fun row member => fromTable row (List.mem_cons_of_mem _ member)
      · intro row member
        unfold keepFirst at member
        split_ifs at member
        · exact kept row member
        · rcases List.mem_append.mp member with earlier | last
          · exact kept row earlier
          · rw [List.mem_singleton] at last
            exact last ▸ entryFrom

/-! ## Plain records -/

/-- The record the first pass allocates for a row: its plain columns, and
zeroed memory elsewhere. -/
def plainRecord (selectColumns : List Text) (row : Row) : Record :=
  fun field => if field ∈ selectColumns then row field else .zero

/-- Copying columns one after the other. -/
def copyColumns (columns : List Text) (row : Row) (record : Record) : Record :=
  columns.foldl (fun record column => record.set column (row column)) record

theorem copyColumns_apply
    (columns : List Text)
    (row : Row)
    (record : Record)
    (field : Text) :
    copyColumns columns row record field =
      if field ∈ columns then row field else record field := by
  induction columns generalizing record with
  | nil => simp [copyColumns]
  | cons column columns inductionHypothesis =>
      have later := inductionHypothesis (record.set column (row column))
      rw [copyColumns, List.foldl_cons]
      rw [copyColumns] at later
      rw [later]
      by_cases same : field = column
      · subst field
        simp
      · rw [Record.set_of_ne same]
        simp [same]

theorem copyColumns_calloc
    (columns : List Text)
    (row : Row) :
    copyColumns columns row calloc = plainRecord columns row := by
  funext field
  rw [copyColumns_apply]
  rfl

/-! ## Running the first pass -/

theorem execAll_copyEntry
    (interp : Interp)
    (columns : List Text)
    (machine : Machine)
    {row : Row}
    (bound : machine.row .it = some row) :
    execAll interp (columns.map .copyEntry) machine =
      some { machine with entry := copyColumns columns row machine.entry } := by
  induction columns generalizing machine with
  | nil => rfl
  | cons column columns inductionHypothesis =>
      have later := inductionHypothesis
        { machine with entry := machine.entry.set column (row column) } bound
      simp only [List.map_cons, execAll, exec, bound, Option.bind_eq_bind, Option.bind_some,
        Option.pure_def]
      exact later

theorem execAll_copyGroupEntry
    (interp : Interp)
    (k : Nat)
    (columns : List Text)
    (machine : Machine)
    {row : Row}
    (bound : machine.row .it = some row) :
    execAll interp (columns.map (.copyGroupEntry k)) machine =
      some { machine with
        groupEntry := Function.update machine.groupEntry k
          (copyColumns columns row (machine.groupEntry k)) } := by
  induction columns generalizing machine with
  | nil => simp [execAll, copyColumns]
  | cons column columns inductionHypothesis =>
      have later := inductionHypothesis
        { machine with
          groupEntry := Function.update machine.groupEntry k
            ((machine.groupEntry k).set column (row column)) } bound
      simp only [Function.update_self, Function.update_idem] at later
      simp only [List.map_cons, execAll, exec, bound, Option.bind_eq_bind, Option.bind_some,
        Option.pure_def]
      exact later

namespace ScanGenerator

/-- One group receives the plain record of the current row. -/
theorem exec_groupEntryStmt
    (interp : Interp)
    (generator : ScanGenerator)
    (k : Nat)
    {machine : Machine}
    {row : Row}
    (bound : machine.row .it = some row) :
    ∃ next, exec interp (generator.groupEntryStmt k) machine = some next ∧
      next.store = machine.store.setGroup k
        (machine.store.group k ++ [plainRecord generator.selectColumns row]) ∧
      next.row = machine.row ∧ next.pos = machine.pos := by
  have copied := execAll_copyGroupEntry interp k generator.selectColumns
    { machine with groupEntry := Function.update machine.groupEntry k calloc } bound
  simp only [Function.update_self, Function.update_idem, copyColumns_calloc] at copied
  refine ⟨{ machine with
    groupEntry := Function.update machine.groupEntry k (plainRecord generator.selectColumns row)
    store := machine.store.setGroup k
      (machine.store.group k ++ [plainRecord generator.selectColumns row]) }, ?_, rfl, rfl, rfl⟩
  rw [groupEntryStmt, exec_block, execAll_append, execAll_append]
  simp only [execAll, exec, Option.bind_eq_bind, Option.bind_some, copied, Function.update_self]

/-- Every listed group receives the plain record of the current row. -/
theorem execAll_groupEntryStmts
    (interp : Interp)
    (generator : ScanGenerator)
    (groups : List Nat)
    (nodup : groups.Nodup)
    (machine : Machine)
    {row : Row}
    (bound : machine.row .it = some row) :
    ∃ next, execAll interp (groups.map generator.groupEntryStmt) machine = some next ∧
      next.store = { machine.store with
        group := fun k =>
          if k ∈ groups then
            machine.store.group k ++ [plainRecord generator.selectColumns row]
          else machine.store.group k } ∧
      next.row = machine.row ∧ next.pos = machine.pos := by
  induction groups generalizing machine with
  | nil => exact ⟨machine, rfl, by simp, rfl, rfl⟩
  | cons k groups inductionHypothesis =>
      obtain ⟨absent, nodupRest⟩ := List.nodup_cons.mp nodup
      obtain ⟨middle, stepped, middleStore, middleRow, middlePos⟩ :=
        generator.exec_groupEntryStmt interp k bound
      obtain ⟨next, finished, nextStore, nextRow, nextPos⟩ :=
        inductionHypothesis nodupRest middle (middleRow ▸ bound)
      refine ⟨next, ?_, ?_, nextRow.trans middleRow, nextPos.trans middlePos⟩
      · simp only [List.map_cons, execAll, stepped, Option.bind_eq_bind, Option.bind_some,
          finished]
      · rw [nextStore, middleStore]
        simp only [Store.setGroup, Store.mk.injEq, true_and]
        funext j
        by_cases same : j = k
        · subst j
          simp [absent]
        · simp [same]

/-- One row of the first pass: its plain record joins the results and every
group vector. -/
theorem exec_prelimBody
    (interp : Interp)
    (generator : ScanGenerator)
    (machine : Machine)
    {row : Row}
    (bound : machine.row .it = some row) :
    ∃ next, exec interp generator.prelimBody machine = some next ∧
      next.store = { machine.store with
        mfStruct := machine.store.mfStruct ++ [plainRecord generator.selectColumns row]
        group := fun k =>
          if k ≤ generator.noGroupingVars then
            machine.store.group k ++ [plainRecord generator.selectColumns row]
          else machine.store.group k } ∧
      next.pos = machine.pos := by
  have copied := execAll_copyEntry interp generator.selectColumns
    { machine with entry := calloc } bound
  simp only [copyColumns_calloc] at copied
  obtain ⟨next, finished, nextStore, -, nextPos⟩ :=
    generator.execAll_groupEntryStmts interp (List.range (generator.noGroupingVars + 1))
      List.nodup_range
      { machine with
        entry := plainRecord generator.selectColumns row
        store := { machine.store with
          mfStruct := machine.store.mfStruct ++ [plainRecord generator.selectColumns row] } }
      bound
  refine ⟨next, ?_, ?_, nextPos⟩
  · rw [prelimBody, exec_block, execAll_append, execAll_append, execAll_append]
    simp only [execAll, exec, Option.bind_eq_bind, Option.bind_some, copied]
    exact finished
  · rw [nextStore]
    simp

theorem execAll_declareGroup
    (interp : Interp)
    (groups : List Nat)
    (machine : Machine) :
    execAll interp (groups.map .declareGroup) machine =
      some { machine with
        store := { machine.store with
          group := fun k => if k ∈ groups then [] else machine.store.group k } } := by
  induction groups generalizing machine with
  | nil => simp [execAll]
  | cons k groups inductionHypothesis =>
      simp only [List.map_cons, execAll, exec, Option.bind_eq_bind, Option.bind_some,
        inductionHypothesis, Store.setGroup, Option.some.injEq]
      congr 2
      funext j
      by_cases same : j = k
      · subst j
        simp
      · simp [same]

/-- The vectors after the first pass. -/
def prelimStore (generator : ScanGenerator) (cols : List Ct) (table : List Row) : Store where
  data := table
  uniques := getUniques cols table
  mfStruct := (getUniques cols table).map (plainRecord generator.selectColumns)
  group := fun k =>
    if k ≤ generator.noGroupingVars then
      (getUniques cols table).map (plainRecord generator.selectColumns)
    else []

/-- The first pass completes and leaves one plain record per kept row in the
results and in every group vector. -/
theorem exec_prelimStmt
    (interp : Interp)
    (generator : ScanGenerator)
    (table : List Row) :
    ∃ final, exec interp generator.prelimStmt (Machine.start table) = some final ∧
      final.store = generator.prelimStore interp.cols table ∧
      final.row = (fun _ => none) ∧ final.pos = 0 := by
  let declared : Machine :=
    { Machine.start table with
      store := ⟨table, getUniques interp.cols table, [], fun _ => []⟩ }
  have loop := iterate_induction .prelim (exec interp generator.prelimBody)
    (fun visited current =>
      current.store = ⟨table, getUniques interp.cols table,
        visited.map (plainRecord generator.selectColumns),
        fun k => if k ≤ generator.noGroupingVars then
          visited.map (plainRecord generator.selectColumns) else []⟩ ∧ current.pos = 0)
    (getUniques interp.cols table) declared (by simp [declared, Machine.start])
    (by
      rintro visited row rest current _ ⟨holds, pos⟩
      have bound : (current.enter .prelim row visited.length).row .it = some row := by
        simp [Machine.enter, Loop.iter]
      obtain ⟨next, stepped, nextStore, nextPos⟩ := generator.exec_prelimBody interp
        (current.enter .prelim row visited.length) bound
      refine ⟨next, stepped, ?_, nextPos.trans pos⟩
      rw [nextStore]
      simp only [Machine.enter, holds, List.map_append, List.map_cons, List.map_nil,
        Store.mk.injEq, true_and]
      funext k
      by_cases inRange : k ≤ generator.noGroupingVars <;> simp [inRange])
  obtain ⟨last, finished, lastStore, lastPos⟩ := loop
  refine ⟨last.leave declared, ?_, lastStore, rfl, lastPos⟩
  rw [prelimStmt, exec_block, execAll_append, execAll_append, execAll, exec]
  simp only [Option.bind_eq_bind, Option.bind_some, execAll, execAll_declareGroup]
  have start : (⟨⟨table, getUniques interp.cols table, [], fun k =>
      if k ∈ List.range (generator.noGroupingVars + 1) then [] else []⟩,
      fun _ => none, 0, calloc, fun _ => calloc, 0⟩ : Machine) = declared := by
    simp [declared, Machine.start]
  simp only [Machine.start, start, exec, Loop.vector, Option.bind_eq_bind]
  rw [finished]
  rfl

end ScanGenerator
end MfQuery
