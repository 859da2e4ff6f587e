import MfQuery.Program.Semantics

/-!
# What the scans write

A scan updates records of group vectors and nothing else: the table, the kept
rows, the result records and the vectors of other groups stay as they are, and
the records it does write keep every field without an underscore. These facts
hold at every point a scan passes through, whatever the guards mean.
-/

namespace MfQuery

open Text

/-! ## Program points -/

/-- Running `statement` from `machine` comes to the point where `here` is about
to run in the state `current`. -/
inductive Passes (interp : Interp) : Stmt → Machine → Stmt → Machine → Prop
  | here {statement machine} : Passes interp statement machine statement machine
  | first {first second here machine current} :
      Passes interp first machine here current →
        Passes interp (.seq first second) machine here current
  | second {first second here machine middle current} :
      exec interp first machine = some middle →
        Passes interp second middle here current →
          Passes interp (.seq first second) machine here current
  | admitted {scan cond body here machine current} :
      interp.guard scan cond machine.row machine.store.group = some true →
        Passes interp body machine here current →
          Passes interp (.guarded scan cond body) machine here current
  | turn {kind body here machine visited row rest entered current} :
      kind.vector machine.store = visited ++ row :: rest →
        iterate (exec interp body) kind visited 0 machine = some entered →
          Passes interp body (entered.enter kind row visited.length) here current →
            Passes interp (.loop kind body) machine here current

/-! ## Local variables -/

/-- A completed statement leaves the loop variables as they were. -/
theorem exec_locals
    {interp : Interp}
    {statement : Stmt}
    {machine next : Machine}
    (finished : exec interp statement machine = some next) :
    next.row = machine.row ∧ next.offset = machine.offset := by
  induction statement generalizing machine next with
  | skip | declareUniques | declareGroup | callocEntry | pushEntry | callocGroupEntry
  | pushGroupEntry | declarePos | offsetPos =>
      cases finished
      exact ⟨rfl, rfl⟩
  | copyEntry | copyGroupEntry | findPos =>
      simp only [exec, Option.bind_eq_bind, Option.bind_eq_some_iff] at finished
      obtain ⟨row, -, result⟩ := finished
      cases result
      exact ⟨rfl, rfl⟩
  | seq first second firstHypothesis secondHypothesis =>
      simp only [exec, Option.bind_eq_bind, Option.bind_eq_some_iff] at finished
      obtain ⟨middle, firstDone, secondDone⟩ := finished
      obtain ⟨firstRow, firstOffset⟩ := firstHypothesis firstDone
      obtain ⟨secondRow, secondOffset⟩ := secondHypothesis secondDone
      exact ⟨secondRow.trans firstRow, secondOffset.trans firstOffset⟩
  | update aggregate source =>
      simp only [exec, Option.bind_eq_bind, Option.bind_eq_some_iff, updateAt] at finished
      obtain ⟨row, -, updated⟩ := finished
      split_ifs at updated <;> cases updated <;> exact ⟨rfl, rfl⟩
  | guarded scan cond body inductionHypothesis =>
      simp only [exec, Option.bind_eq_bind, Option.bind_eq_some_iff] at finished
      obtain ⟨admitted, -, result⟩ := finished
      cases admitted with
      | true => exact inductionHypothesis result
      | false =>
          cases result
          exact ⟨rfl, rfl⟩
  | loop kind body _ =>
      simp only [exec, Option.bind_eq_bind, Option.bind_eq_some_iff] at finished
      obtain ⟨final, -, result⟩ := finished
      cases result
      exact ⟨rfl, rfl⟩

/-! ## Written vectors -/

/-- Statements that write only group vectors among `allowed`. -/
def Stmt.WritesOnly (allowed : Nat → Prop) : Stmt → Prop
  | .skip | .declarePos | .findPos _ _ | .offsetPos => True
  | .seq first second => first.WritesOnly allowed ∧ second.WritesOnly allowed
  | .update aggregate _ => allowed aggregate.group.toNat
  | .guarded _ _ body => body.WritesOnly allowed
  | .loop _ body => body.WritesOnly allowed
  | .declareUniques | .declareGroup _ | .callocEntry | .copyEntry _ | .pushEntry
  | .callocGroupEntry _ | .copyGroupEntry _ _ | .pushGroupEntry _ => False

theorem Stmt.writesOnly_block
    {allowed : Nat → Prop}
    {statements : List Stmt}
    (each : ∀ statement ∈ statements, statement.WritesOnly allowed) :
    (Stmt.block statements).WritesOnly allowed := by
  induction statements with
  | nil => trivial
  | cons statement rest inductionHypothesis =>
      exact ⟨each statement (List.mem_cons_self ..),
        inductionHypothesis fun other member => each other (List.mem_cons_of_mem _ member)⟩

/-- Two records agree on the fields that are not aggregates. -/
def SamePlain (old new : Record) : Prop :=
  ∀ field, '_' ∉ field → new field = old field

theorem SamePlain.refl (record : Record) : SamePlain record record := fun _ _ => rfl

theorem SamePlain.trans
    {first second third : Record}
    (left : SamePlain first second)
    (right : SamePlain second third) :
    SamePlain first third :=
  fun field plain => (right field plain).trans (left field plain)

/-- An update touches only the field of its aggregate. -/
theorem Aggregate.apply_of_ne
    {aggregate : Aggregate}
    {field : Text}
    (different : field ≠ aggregate.toVar)
    (row : Row)
    (record : Record) :
    aggregate.apply row record field = record field := by
  unfold Aggregate.apply
  cases aggregate.update <;> simp only [Record.set_of_ne different]

theorem Aggregate.samePlain_apply
    (aggregate : Aggregate)
    (row : Row)
    (record : Record) :
    SamePlain record (aggregate.apply row record) := by
  intro field plain
  refine aggregate.apply_of_ne ?_ row record
  rintro rfl
  exact plain aggregate.underscore_mem_toVar

/-- What a scan writing only `allowed` groups keeps of the vectors. -/
structure Store.Keeps (allowed : Nat → Prop) (before after : Store) : Prop where
  data_eq : after.data = before.data
  uniques_eq : after.uniques = before.uniques
  mfStruct_eq : after.mfStruct = before.mfStruct
  group_eq : ∀ k, ¬allowed k → after.group k = before.group k
  records : ∀ k, List.Forall₂ SamePlain (before.group k) (after.group k)

namespace Store.Keeps

variable {allowed : Nat → Prop} {first second third : Store}

theorem refl (store : Store) : Store.Keeps allowed store store :=
  ⟨rfl, rfl, rfl, fun _ _ => rfl, fun _ => List.forall₂_same.mpr fun record _ => .refl record⟩

theorem trans
    (left : Store.Keeps allowed first second)
    (right : Store.Keeps allowed second third) :
    Store.Keeps allowed first third where
  data_eq := right.data_eq.trans left.data_eq
  uniques_eq := right.uniques_eq.trans left.uniques_eq
  mfStruct_eq := right.mfStruct_eq.trans left.mfStruct_eq
  group_eq k forbidden := (right.group_eq k forbidden).trans (left.group_eq k forbidden)
  records k := by
    have both := List.forall₂_iff_get.mp (left.records k)
    have next := List.forall₂_iff_get.mp (right.records k)
    refine List.forall₂_iff_get.mpr ⟨both.1.trans next.1, fun i inFirst inThird => ?_⟩
    exact (both.2 i inFirst (both.1 ▸ inFirst)).trans (next.2 i (both.1 ▸ inFirst) inThird)

end Store.Keeps

theorem forall₂_samePlain_modify
    (aggregate : Aggregate)
    (row : Row)
    (vector : List Record)
    (pos : Nat) :
    List.Forall₂ SamePlain vector (vector.modify pos (aggregate.apply row)) := by
  refine List.forall₂_iff_get.mpr ⟨by simp, fun i inside _ => ?_⟩
  simp only [List.get_eq_getElem, List.getElem_modify]
  split_ifs
  · exact aggregate.samePlain_apply row _
  · exact .refl _

theorem updateAt_keeps
    {allowed : Nat → Prop}
    {aggregate : Aggregate}
    (target : allowed aggregate.group.toNat)
    {row : Row}
    {machine next : Machine}
    (updated : updateAt aggregate row machine = some next) :
    Store.Keeps allowed machine.store next.store := by
  simp only [updateAt] at updated
  split_ifs at updated
  · cases updated
    exact .refl _
  · cases updated
    refine ⟨rfl, rfl, rfl, fun k forbidden => ?_, fun k => ?_⟩
    · have different : k ≠ aggregate.group.toNat := by
        rintro rfl
        exact forbidden target
      simp [Store.setGroup, different]
    · by_cases same : k = aggregate.group.toNat
      · subst k
        simpa [Store.setGroup] using forall₂_samePlain_modify aggregate row _ machine.pos
      · simpa [Store.setGroup, same] using List.forall₂_same.mpr fun record _ => .refl record

theorem iterate_keeps
    {allowed : Nat → Prop}
    {body : Machine → Option Machine}
    (each : ∀ machine next, body machine = some next →
      Store.Keeps allowed machine.store next.store)
    {kind : Loop}
    {rows : List Row}
    {index : Nat}
    {machine final : Machine}
    (finished : iterate body kind rows index machine = some final) :
    Store.Keeps allowed machine.store final.store :=
  iterate_preserves
    (fun before after => Store.Keeps allowed before.store after.store)
    (fun _ => .refl _) (fun _ _ _ => .trans)
    (fun current row index next stepped => each (current.enter kind row index) next stepped)
    finished

/-- A completed statement keeps what it does not write. -/
theorem exec_keeps
    {interp : Interp}
    {allowed : Nat → Prop}
    {statement : Stmt}
    (writes : statement.WritesOnly allowed)
    {machine next : Machine}
    (finished : exec interp statement machine = some next) :
    Store.Keeps allowed machine.store next.store := by
  induction statement generalizing machine next with
  | skip | declarePos | offsetPos =>
      cases finished
      exact .refl _
  | findPos k attributes =>
      simp only [exec, Option.bind_eq_bind, Option.bind_eq_some_iff] at finished
      obtain ⟨row, -, result⟩ := finished
      cases result
      exact .refl _
  | seq first second firstHypothesis secondHypothesis =>
      simp only [exec, Option.bind_eq_bind, Option.bind_eq_some_iff] at finished
      obtain ⟨middle, firstDone, secondDone⟩ := finished
      exact (firstHypothesis writes.1 firstDone).trans (secondHypothesis writes.2 secondDone)
  | update aggregate source =>
      simp only [exec, Option.bind_eq_bind, Option.bind_eq_some_iff] at finished
      obtain ⟨row, -, updated⟩ := finished
      exact updateAt_keeps writes updated
  | guarded scan cond body inductionHypothesis =>
      simp only [exec, Option.bind_eq_bind, Option.bind_eq_some_iff] at finished
      obtain ⟨admitted, -, result⟩ := finished
      cases admitted with
      | true => exact inductionHypothesis writes result
      | false =>
          cases result
          exact .refl _
  | loop kind body inductionHypothesis =>
      simp only [exec, Option.bind_eq_bind, Option.bind_eq_some_iff] at finished
      obtain ⟨final, iterated, result⟩ := finished
      cases result
      have kept := iterate_keeps (fun _ _ stepped => inductionHypothesis writes stepped) iterated
      exact kept
  | declareUniques | declareGroup | callocEntry | copyEntry | pushEntry | callocGroupEntry
  | copyGroupEntry | pushGroupEntry => exact writes.elim

/-- So does every state a statement passes through. -/
theorem passes_keeps
    {interp : Interp}
    {allowed : Nat → Prop}
    {statement here : Stmt}
    {machine current : Machine}
    (passes : Passes interp statement machine here current)
    (writes : statement.WritesOnly allowed) :
    Store.Keeps allowed machine.store current.store := by
  induction passes with
  | here => exact .refl _
  | first _ inductionHypothesis => exact inductionHypothesis writes.1
  | second firstDone _ inductionHypothesis =>
      exact (exec_keeps writes.1 firstDone).trans (inductionHypothesis writes.2)
  | admitted _ _ inductionHypothesis => exact inductionHypothesis writes
  | @turn kind body _ _ _ _ _ _ _ _ iterated _ inductionHypothesis =>
      have bodyWrites : body.WritesOnly allowed := writes
      have before := iterate_keeps (fun _ _ stepped => exec_keeps bodyWrites stepped) iterated
      exact before.trans (inductionHypothesis writes)

/-- A state a statement comes to: at one of its points or at its end. -/
def Visits (interp : Interp) (statement : Stmt) (machine current : Machine) : Prop :=
  (∃ here, Passes interp statement machine here current) ∨
    exec interp statement machine = some current

theorem visits_keeps
    {interp : Interp}
    {allowed : Nat → Prop}
    {statement : Stmt}
    {machine current : Machine}
    (visits : Visits interp statement machine current)
    (writes : statement.WritesOnly allowed) :
    Store.Keeps allowed machine.store current.store := by
  rcases visits with ⟨here, passes⟩ | finished
  · exact passes_keeps passes writes
  · exact exec_keeps writes finished

/-- The updates of a bucket write only the group of the bucket. -/
theorem writesOnly_updates
    {i : Nat}
    {bucket : List Aggregate}
    (own : ∀ aggregate ∈ bucket, aggregate.group = (i : Int))
    (source : Iter) :
    (Stmt.block (bucket.map fun aggregate => .update aggregate source)).WritesOnly (· = i) := by
  refine Stmt.writesOnly_block fun statement member => ?_
  obtain ⟨aggregate, inside, rfl⟩ := List.mem_map.mp member
  show aggregate.group.toNat = i
  have group := own aggregate inside
  omega

/-- The scan of a group writes only that group. -/
theorem ScanGenerator.writesOnly_modeScanStmt
    (generator : ScanGenerator)
    {i : Nat}
    {bucket : List Aggregate}
    (own : ∀ aggregate ∈ bucket, aggregate.group = (i : Int))
    (cond : Text) :
    (generator.modeScanStmt i bucket cond).WritesOnly (· = i) := by
  unfold modeScanStmt
  split_ifs
  · exact ⟨trivial, writesOnly_updates own .xt⟩
  · exact ⟨trivial, trivial, writesOnly_updates own .it⟩

/-- The scan of group `i` of a compiled program writes only group `i`. -/
theorem ScanGenerator.Compiled.writesOnly_scan
    {generator : ScanGenerator}
    {program : Program}
    (compiled : generator.Compiled program)
    {i : Nat}
    {scan : Stmt}
    (found : program.scans[i]? = some scan) :
    scan.WritesOnly (· = i) := by
  obtain ⟨-, cond, -, rfl⟩ := compiled.scan found
  refine generator.writesOnly_modeScanStmt (fun aggregate member => ?_) cond
  exact of_decide_eq_true (List.mem_filter.mp member).2

theorem Stmt.WritesOnly.mono
    {allowed larger : Nat → Prop}
    (inside : ∀ k, allowed k → larger k)
    {statement : Stmt}
    (writes : statement.WritesOnly allowed) :
    statement.WritesOnly larger := by
  induction statement with
  | seq first second firstHypothesis secondHypothesis =>
      exact ⟨firstHypothesis writes.1, secondHypothesis writes.2⟩
  | update aggregate source => exact inside _ writes
  | guarded scan cond body inductionHypothesis => exact inductionHypothesis writes
  | loop kind body inductionHypothesis => exact inductionHypothesis writes
  | skip | declarePos | findPos | offsetPos => trivial
  | declareUniques | declareGroup | callocEntry | copyEntry | pushEntry | callocGroupEntry
  | copyGroupEntry | pushGroupEntry => exact writes.elim

/-- The scans behind the one of group `i` write only larger groups. -/
theorem ScanGenerator.Compiled.writesOnly_drop
    {generator : ScanGenerator}
    {program : Program}
    (compiled : generator.Compiled program)
    (i : Nat) :
    (Stmt.block (program.scans.drop (i + 1))).WritesOnly (i < ·) := by
  refine Stmt.writesOnly_block fun scan member => ?_
  obtain ⟨k, found⟩ := List.mem_iff_getElem?.mp member
  rw [List.getElem?_drop] at found
  refine (compiled.writesOnly_scan found).mono fun j same => ?_
  omega

/-- All scans together write only group vectors. -/
theorem ScanGenerator.Compiled.writesOnly_scans
    {generator : ScanGenerator}
    {program : Program}
    (compiled : generator.Compiled program) :
    (Stmt.block program.scans).WritesOnly fun _ => True := by
  refine Stmt.writesOnly_block fun scan member => ?_
  obtain ⟨i, found⟩ := List.mem_iff_getElem?.mp member
  exact (compiled.writesOnly_scan found).mono fun _ _ => trivial

end MfQuery
