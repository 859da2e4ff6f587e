import MfQuery.Program.Syntax

/-!
# Semantics of the emitted program

Records are functions from field names to values. Table rows are never
written; the records of `mf_struct` and of the group vectors are allocated by
`calloc` in the first pass, one per vector position, so a vector of pointers
is a list of records. Integers are 64 bits wide and wrap around. A statement
fails (`none`) where the emitted program throws, that is at `->at(pos)`
outside the vector, and where it would not compile.

A value keeps its own type when it is copied; whether the declared types of
two structures agree is a property of the declarations alone.
-/

namespace MfQuery

open Text

/-! ## Values and records -/

/-- Field contents: zeroed memory, an integer, a string, or an `Average` with
its count and sum. -/
inductive Value
  | zero
  | int (value : Int)
  | str (text : Text)
  | avg (count sum : Int)
  deriving DecidableEq, Repr

/-- Reduction to a signed 64-bit integer. -/
def wrap64 (value : Int) : Int := Int.bmod value (2 ^ 64)

/-- Reduction to a signed 32-bit integer. -/
def wrap32 (value : Int) : Int := Int.bmod value (2 ^ 32)

theorem wrap64_of_bounds
    {value : Int}
    (lower : -2 ^ 63 ≤ value)
    (upper : value < 2 ^ 63) :
    wrap64 value = value := by
  unfold wrap64
  rw [Int.bmod_eq_of_le] <;> omega

theorem wrap32_of_bounds
    {value : Int}
    (lower : -2 ^ 31 ≤ value)
    (upper : value < 2 ^ 31) :
    wrap32 value = value := by
  unfold wrap32
  rw [Int.bmod_eq_of_le] <;> omega

namespace Value

/-- The field read as an integer. -/
def asInt : Value → Int
  | int value => value
  | _ => 0

/-- The field read as a string. -/
def asStr : Value → Text
  | str text => text
  | _ => []

/-- The field read as an `Average`: count and sum. -/
def asAvg : Value → Int × Int
  | avg count sum => (count, sum)
  | _ => (0, 0)

/-- `field += value`. -/
def plus (field : Value) : Value → Value
  | int value => int (wrap64 (field.asInt + value))
  | str text => str (field.asStr ++ text)
  | _ => field

/-- `Average::add`. -/
def add (field : Value) : Value → Value
  | int value => avg (wrap32 (field.asAvg.1 + 1)) (wrap64 (field.asAvg.2 + value))
  | _ => field

/-- `Average::value`: zero on no rows, else the quotient truncated toward
zero. -/
def average (field : Value) : Value :=
  if field.asAvg.1 = 0 then int 0 else int (Int.tdiv field.asAvg.2 field.asAvg.1)

/-- `if(field > value) field = value;`. -/
def takeLess (field : Value) : Value → Value
  | int value => if value < field.asInt then int value else field
  | str text => if text < field.asStr then str text else field
  | _ => field

/-- `if(field < value) field = value;`. -/
def takeGreater (field : Value) : Value → Value
  | int value => if field.asInt < value then int value else field
  | str text => if field.asStr < text then str text else field
  | _ => field

@[simp] theorem asInt_int (value : Int) : (int value).asInt = value := rfl

@[simp] theorem asAvg_avg (count sum : Int) : (avg count sum).asAvg = (count, sum) := rfl

@[simp] theorem plus_int (field : Value) (value : Int) :
    field.plus (int value) = int (wrap64 (field.asInt + value)) := rfl

@[simp] theorem add_int (field : Value) (value : Int) :
    field.add (int value) =
      avg (wrap32 (field.asAvg.1 + 1)) (wrap64 (field.asAvg.2 + value)) := rfl

end Value

/-- A record: a row of the table, of `mf_struct` or of a group vector. -/
abbrev Record := Text → Value

/-- Rows of the table. -/
abbrev Row := Record

/-- `calloc`. -/
def calloc : Record := fun _ => .zero

/-- Assign one field. -/
def Record.set (record : Record) (field : Text) (value : Value) : Record :=
  Function.update record field value

@[simp] theorem Record.set_self
    (record : Record)
    (field : Text)
    (value : Value) :
    record.set field value field = value := by
  simp [Record.set]

theorem Record.set_of_ne
    {field other : Text}
    (different : other ≠ field)
    (record : Record)
    (value : Value) :
    record.set field value other = record other := by
  simp [Record.set, different]

/-! ## Helper functions -/

/-- Comparison of two key values at the type of the emitted comparison:
`compare(...) == 0` for strings, `==` for numbers. -/
def keyEq (type : CppType) (left right : Value) : Bool :=
  match type with
  | .string => decide (left.asStr = right.asStr)
  | _ => decide (left.asInt = right.asInt)

/-- The comparison of `vfind<i>`: arguments against a record. -/
def argumentsMatch (cols : List Ct) (arguments : List Value) (record : Record) : Bool :=
  (cols.zip arguments).all fun pair => keyEq pair.1.type pair.2 (record pair.1.name)

/-- `vfind<i>`: the index is returned as an `int`. -/
def vfind (cols : List Ct) (data : List Record) (arguments : List Value) : Int :=
  match data.findIdx? (argumentsMatch cols arguments) with
  | some index => wrap32 index
  | none => -1

/-- The comparison of `is_unique`: the new entry against a kept row. -/
def sameKey (cols : List Ct) (entry row : Row) : Bool :=
  cols.all fun col => keyEq col.type (entry col.name) (row col.name)

/-- `is_unique`. -/
def isUnique (cols : List Ct) (data : List Row) (entry : Row) : Bool :=
  !data.any (sameKey cols entry)

/-- `get_uniques`. -/
def getUniques (cols : List Ct) (data : List Row) : List Row :=
  data.foldl (fun out entry => if isUnique cols out entry then out ++ [entry] else out) []

/-- Conversion to `size_t`. -/
def toSizeT (value : Int) : Nat := (value % 2 ^ 64).toNat

/-! ## Updates -/

/-- The update of one aggregate for one more row. -/
def Aggregate.apply (aggregate : Aggregate) (row : Row) (record : Record) : Record :=
  let field := aggregate.toVar
  let value := row aggregate.column
  match aggregate.update with
  | .avg => record.set field ((record field).add value)
  | .sum => record.set field ((record field).plus value)
  | .count => record.set field ((record field).plus (.int 1))
  | .min => record.set field ((record field).takeLess value)
  | .max => record.set field ((record field).takeGreater value)
  | .none => record

/-! ## Statements -/

/-- The vectors of the emitted `main`. -/
structure Store where
  data : List Row
  uniques : List Row
  mfStruct : List Record
  group : Nat → List Record

/-- Replace the vector of one group. -/
def Store.setGroup (store : Store) (k : Nat) (vector : List Record) : Store :=
  { store with group := Function.update store.group k vector }

/-- The vectors and the local variables. -/
structure Machine where
  store : Store
  row : Iter → Option Row
  offset : Nat
  entry : Record
  groupEntry : Nat → Record
  pos : Nat

/-- What the statements are run under: the typed grouping attributes the
helper functions were generated from, and a meaning of the guards as
conditions on the loop rows and the group vectors. -/
structure Interp where
  cols : List Ct
  guard : Nat → Text → (Iter → Option Row) → (Nat → List Record) → Option Bool

/-- The vector a loop walks. -/
def Loop.vector (store : Store) : Loop → List Row
  | .prelim | .emfOuter => store.uniques
  | .scan | .emfInner => store.data

/-- Enter the body of a loop at a row. -/
def Machine.enter (machine : Machine) (kind : Loop) (row : Row) (index : Nat) : Machine :=
  { machine with
    row := Function.update machine.row kind.iter (some row)
    offset := match kind.iter with
      | .it => index
      | .xt => machine.offset }

/-- Leave a loop: its iterator goes out of scope. -/
def Machine.leave (machine outer : Machine) : Machine :=
  { machine with row := outer.row, offset := outer.offset }

/-- Visit the rows of a loop in order, numbered from `index`. -/
def iterate
    (body : Machine → Option Machine)
    (kind : Loop) : List Row → Nat → Machine → Option Machine
  | [], _, machine => some machine
  | row :: rows, index, machine => do
      let next ← body (machine.enter kind row index)
      iterate body kind rows (index + 1) next

/-- `data<g>->at(pos)` for an aggregate, then its update. -/
def updateAt (aggregate : Aggregate) (row : Row) (machine : Machine) : Option Machine :=
  let k := aggregate.group.toNat
  if aggregate.update = .none then some machine
  else if machine.pos < (machine.store.group k).length then
    some { machine with
      store := machine.store.setGroup k
        ((machine.store.group k).modify machine.pos (aggregate.apply row)) }
  else none

/-- Execution of a statement. -/
def exec (interp : Interp) : Stmt → Machine → Option Machine
  | .skip, machine => some machine
  | .seq first second, machine => do
      let middle ← exec interp first machine
      exec interp second middle
  | .declareUniques, machine =>
      some { machine with
        store := { machine.store with uniques := getUniques interp.cols machine.store.data } }
  | .declareGroup k, machine => some { machine with store := machine.store.setGroup k [] }
  | .callocEntry, machine => some { machine with entry := calloc }
  | .copyEntry column, machine => do
      let row ← machine.row .it
      return { machine with entry := machine.entry.set column (row column) }
  | .pushEntry, machine =>
      some { machine with
        store := { machine.store with mfStruct := machine.store.mfStruct ++ [machine.entry] } }
  | .callocGroupEntry k, machine =>
      some { machine with groupEntry := Function.update machine.groupEntry k calloc }
  | .copyGroupEntry k column, machine => do
      let row ← machine.row .it
      return { machine with
        groupEntry := Function.update machine.groupEntry k
          ((machine.groupEntry k).set column (row column)) }
  | .pushGroupEntry k, machine =>
      some { machine with
        store := machine.store.setGroup k (machine.store.group k ++ [machine.groupEntry k]) }
  | .declarePos, machine => some machine
  | .findPos k attributes, machine => do
      let row ← machine.row .it
      return { machine with
        pos := toSizeT (vfind interp.cols (machine.store.group k) (attributes.map row)) }
  | .offsetPos, machine => some { machine with pos := machine.offset }
  | .update aggregate source, machine => do
      let row ← machine.row source
      updateAt aggregate row machine
  | .guarded scan cond body, machine => do
      let admitted ← interp.guard scan cond machine.row machine.store.group
      if admitted then exec interp body machine else some machine
  | .loop kind body, machine => do
      let final ← iterate (exec interp body) kind (kind.vector machine.store) 0 machine
      return final.leave machine

/-- Statements run one after the other. -/
def execAll (interp : Interp) : List Stmt → Machine → Option Machine
  | [], machine => some machine
  | statement :: rest, machine => do
      let next ← exec interp statement machine
      execAll interp rest next

/-- `main` when the first pass begins: the table is loaded, `mf_struct` is
empty. -/
def Machine.start (table : List Row) : Machine where
  store := ⟨table, [], [], fun _ => []⟩
  row := fun _ => none
  offset := 0
  entry := calloc
  groupEntry := fun _ => calloc
  pos := 0

/-! ## Rules -/

@[simp] theorem exec_block
    (interp : Interp)
    (statements : List Stmt)
    (machine : Machine) :
    exec interp (.block statements) machine = execAll interp statements machine := by
  induction statements generalizing machine with
  | nil => rfl
  | cons statement rest inductionHypothesis =>
      simp only [Stmt.block, exec, execAll, inductionHypothesis]

theorem execAll_append
    (interp : Interp)
    (first second : List Stmt)
    (machine : Machine) :
    execAll interp (first ++ second) machine =
      (execAll interp first machine).bind (execAll interp second) := by
  induction first generalizing machine with
  | nil => rfl
  | cons statement rest inductionHypothesis =>
      simp only [List.cons_append, execAll]
      cases exec interp statement machine with
      | none => rfl
      | some next => simpa using inductionHypothesis next

/-- Invariant rule for loops: what holds before the first row and is kept by
every row holds behind the last one, and the loop completes. -/
theorem iterate_induction
    (kind : Loop)
    (body : Machine → Option Machine)
    (invariant : List Row → Machine → Prop)
    (rows : List Row)
    (machine : Machine)
    (initial : invariant [] machine)
    (step : ∀ done row rest current,
      rows = done ++ row :: rest → invariant done current →
        ∃ next, body (current.enter kind row done.length) = some next ∧
          invariant (done ++ [row]) next) :
    ∃ final, iterate body kind rows 0 machine = some final ∧ invariant rows final := by
  -- generalize over the rows already visited
  suffices general : ∀ rest done current, rows = done ++ rest → invariant done current →
      ∃ final, iterate body kind rest done.length current = some final ∧
        invariant rows final by
    exact general rows [] machine rfl initial
  intro rest
  induction rest with
  | nil =>
      intro done current shape holds
      rw [List.append_nil] at shape
      exact ⟨current, rfl, shape ▸ holds⟩
  | cons row rest inductionHypothesis =>
      intro done current shape holds
      obtain ⟨next, stepped, kept⟩ := step done row rest current shape holds
      obtain ⟨final, finished, result⟩ := inductionHypothesis (done ++ [row]) next
        (by simpa using shape) kept
      refine ⟨final, ?_, result⟩
      rw [List.length_append, List.length_singleton] at finished
      simp only [iterate, stepped, Option.bind_eq_bind, Option.bind_some]
      exact finished

/-- What every row of a completed loop keeps, the loop keeps. -/
theorem iterate_preserves
    {kind : Loop}
    {body : Machine → Option Machine}
    (relation : Machine → Machine → Prop)
    (reflexive : ∀ machine, relation machine machine)
    (transitive : ∀ first second third,
      relation first second → relation second third → relation first third)
    (step : ∀ machine row index next,
      body (machine.enter kind row index) = some next → relation machine next)
    {rows : List Row}
    {index : Nat}
    {machine final : Machine}
    (finished : iterate body kind rows index machine = some final) :
    relation machine final := by
  induction rows generalizing index machine with
  | nil =>
      cases finished
      exact reflexive _
  | cons row rows inductionHypothesis =>
      simp only [iterate, Option.bind_eq_bind, Option.bind_eq_some_iff] at finished
      obtain ⟨next, stepped, rest⟩ := finished
      exact transitive _ _ _ (step _ _ _ _ stepped) (inductionHypothesis rest)

end MfQuery
