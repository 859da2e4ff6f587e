import MfQuery.Program.Interference
import MfQuery.Program.Line

/-!
# Guards of EMF scans

In an EMF scan `it` walks the kept rows and `xt` walks the table, whose rows
are aggregated. Translated atoms read their column through `it` and the
attributes they compare it with through `xt`: the kept row is tested against
the scanned one. An atom is what it says only if exchanging the two rows does
not matter.
-/

namespace MfQuery

open Text

/-! ## What the atoms are compared with -/

/-- The right-hand side of an atom, read from the row of the group. -/
def AtomValue.at (row : Row) : AtomValue → Int
  | int value => value
  | str _ => 0
  | attr name => (row name).asInt
  | shifted name sign constant => sign.shift (row name).asInt constant

/-- The right-hand side the emitted guard computes from the row of `xt`, where
it compiles. -/
def AtomValue.emitted (row : Row) : AtomValue → Option Int
  | int value => if value.natAbs < 2 ^ 63 then some value else none
  | str _ => none
  | attr name => some (row name).asInt
  | shifted name sign constant =>
      if constant < 2 ^ 63 then some (wrap64 (sign.shift (row name).asInt constant)) else none

/-- The attributes a right-hand side reads. -/
def AtomValue.names : AtomValue → List Text
  | attr name => [name]
  | shifted name _ _ => [name]
  | _ => []

/-- The row holds 64-bit integers wherever the atom reads it. -/
def Atom.IntegerRow (atom : Atom) (row : Row) : Prop :=
  ∀ name ∈ atom.column :: atom.value.names, Stored .int64 (row name)

/-- The atoms of an EMF condition on integers: literals, grouping attributes,
and grouping attributes with an offset. -/
structure EmfAtom (columns : List Column) (groupingAttr : List Text) (atom : Atom) : Prop
    extends atom.WellFormed columns where
  noString : ∀ text, atom.value ≠ .str text
  grouping : ∀ name ∈ atom.value.names, name ∈ groupingAttr

/-- The right-hand side as an expression. -/
def AtomValue.expr : AtomValue → Cpp.Expr
  | int value => integerExpr value
  | str text => .string text
  | attr name => Cpp.Parser.memberExpr Iter.xt.name name
  | shifted name sign constant =>
      .binary sign.binOp (Cpp.Parser.memberExpr Iter.xt.name name) (.number (numeral constant))

theorem exists_int_of_stored
    {content : Value}
    (stored : Stored .int64 content) :
    ∃ value, content = .int value ∧ -2 ^ 63 ≤ value ∧ value < 2 ^ 63 := by
  cases content with
  | int value => exact ⟨value, rfl, stored⟩
  | zero => exact stored.elim
  | str text => exact stored.elim
  | avg count sum => exact stored.elim

/-- Evaluation of the right-hand side. -/
theorem AtomValue.eval_expr
    {value : AtomValue}
    (noString : ∀ text, value ≠ .str text)
    {env : Env}
    {row : Row}
    (bound : env.rows .xt = some row)
    (integers : ∀ name ∈ value.names, Stored .int64 (row name))
    (vectors : Nat → List Record) :
    match value.emitted row with
    | some number => ∃ right wide, Cpp.eval env value.expr vectors = some (right, vectors) ∧
        right.asNum = some (wide, number)
    | none => Cpp.eval env value.expr vectors = none := by
  cases value with
  | int value =>
      simp only [emitted, expr]
      split_ifs with fits
      · obtain ⟨wide, evaluated⟩ := eval_integer fits env vectors
        exact ⟨_, wide, evaluated, rfl⟩
      · exact eval_integer_of_large fits env vectors
  | str text => exact (noString text rfl).elim
  | attr name =>
      obtain ⟨number, content, -⟩ := exists_int_of_stored (integers name (by simp [names]))
      refine ⟨.cell (row name) none, true, eval_member bound name vectors, ?_⟩
      rw [content]
      rfl
  | shifted name sign constant =>
      obtain ⟨number, content, -⟩ := exists_int_of_stored (integers name (by simp [names]))
      have member := eval_member bound name vectors
      simp only [emitted, expr]
      split_ifs with fits
      · refine ⟨.num true (wrap64 (sign.shift (row name).asInt constant)), true, ?_, rfl⟩
        rw [content] at member ⊢
        have right : Cpp.eval env (.number (numeral constant)) vectors =
            some (.num (decide (2 ^ 31 ≤ constant)) constant, vectors) := by
          simp only [Cpp.eval, literal_numeral, if_pos fits, Option.map_some]
        cases sign with
        | plus =>
            simp only [Sign.binOp, Cpp.eval] at right ⊢
            simp only [member, right, Option.bind_some]
            rfl
        | minus =>
            simp only [Sign.binOp, Cpp.eval] at right ⊢
            simp only [member, right, Option.bind_some]
            rfl
      · cases sign <;>
          simp only [Sign.binOp, Cpp.eval, member, literal_numeral, if_neg fits,
            Option.bind_some, Option.map_none, Option.bind_none]

/-- Evaluation of an atom in an EMF scan: the column of the kept row against
the right-hand side of the scanned row. -/
theorem Atom.eval_expr
    {atom : Atom}
    (noString : ∀ text, atom.value ≠ .str text)
    (noAverage : contains atom.column "avg" = false)
    {env : Env}
    {kept row : Row}
    (boundIt : env.rows .it = some kept)
    (boundXt : env.rows .xt = some row)
    (keptIntegers : atom.IntegerRow kept)
    (rowIntegers : atom.IntegerRow row)
    (vectors : Nat → List Record) :
    Cpp.eval env atom.expr vectors = (atom.value.emitted row).map fun number =>
      (.bool (atom.operator.holds (kept atom.column).asInt number), vectors) := by
  have shape : atom.expr =
      .binary atom.operator.binOp (operandExpr atom.column) atom.value.expr := by
    unfold Atom.expr
    cases value : atom.value with
    | str text => exact (noString text value).elim
    | _ => rfl
  obtain ⟨content, stored, -⟩ :=
    exists_int_of_stored (keptIntegers atom.column (List.mem_cons_self ..))
  have left := eval_operand noAverage boundIt vectors
  have leftNum : (Val.cell (kept atom.column) none).asNum =
      some (true, (kept atom.column).asInt) := by
    rw [stored]
    rfl
  have right := AtomValue.eval_expr noString boundXt
    (fun name member => rowIntegers name (List.mem_cons_of_mem _ member)) vectors
  rw [shape, eval_binOp left]
  cases computed : atom.value.emitted row with
  | none =>
      rw [computed] at right
      simp only at right
      rw [right]
      rfl
  | some number =>
      rw [computed] at right
      obtain ⟨rightValue, wide, evaluated, rightNum⟩ := right
      rw [evaluated]
      simp [atom.operator.apply_binOp leftNum rightNum]

/-! ## Exchanging the two rows -/

/-- The emitted guard tests the scanned row against the row of the group. -/
def Atom.TestsScannedRow
    (atom : Atom)
    (groupingAttr : List Text)
    (columns : List Column) : Prop :=
  ∀ (env : Env) (kept row : Row) (vectors : Nat → List Record),
    env.rows .it = some kept → env.rows .xt = some row →
      atom.IntegerRow kept → atom.IntegerRow row →
        atom.test env groupingAttr columns vectors =
          some (atom.operator.holds (row atom.column).asInt (atom.value.at kept), vectors)

/-- Operators that do not change when their operands are exchanged. -/
def CmpOp.Symmetric (operator : CmpOp) : Prop :=
  operator = .eq ∨ operator = .ne ∨ operator = .diamond

/-- Right-hand sides with which a comparison means the same after the rows are
exchanged: the column itself under equality or inequality, and the largest
64-bit integer under the two operators all integers decide alike. -/
def AtomValue.Exchangeable (operator : CmpOp) (column : Text) : AtomValue → Prop
  | int value => (operator = .le ∨ operator = .gt) ∧ value = 2 ^ 63 - 1
  | attr name => name = column ∧ operator.Symmetric
  | shifted name _ constant => name = column ∧ constant = 0 ∧ operator.Symmetric
  | str _ => False

/-- Atoms whose guard compiles and means the same with the rows exchanged. -/
def Atom.SwapProof (atom : Atom) : Prop :=
  contains atom.column "avg" = false ∧ atom.value.Exchangeable atom.operator atom.column

/-- Signed 64-bit integers. -/
def InRange (value : Int) : Prop := -2 ^ 63 ≤ value ∧ value < 2 ^ 63

instance (value : Int) : Decidable (InRange value) :=
  inferInstanceAs (Decidable (_ ∧ _))

/-- A comparison with a fixed number that all 64-bit integers decide alike. -/
theorem constant_of_agree
    {operator : CmpOp}
    {value : Int}
    (small : value.natAbs < 2 ^ 63)
    (agree : ∀ left right, InRange left → InRange right →
      operator.holds left value = operator.holds right value) :
    (operator = .le ∨ operator = .gt) ∧ value = 2 ^ 63 - 1 := by
  have inRange : InRange value := ⟨by omega, by omega⟩
  have below := agree (value - 1) value ⟨by omega, by omega⟩ inRange
  have above : value ≠ 2 ^ 63 - 1 →
      operator.holds (value + 1) value = operator.holds value value := by
    intro different
    exact agree (value + 1) value ⟨by omega, by omega⟩ inRange
  cases operator with
  | eq | lt | ge | ne | diamond => simp [CmpOp.holds] at below
  | le | gt =>
      refine ⟨by simp, ?_⟩
      by_contra different
      have decided := above different
      simp [CmpOp.holds] at decided

/-- Comparing two integers at a distance, with the rows exchanged. -/
theorem symmetric_of_agree
    {operator : CmpOp}
    {distance : Int}
    (small : distance.natAbs < 2 ^ 63)
    (agree : ∀ left, InRange left →
      operator.holds left distance = operator.holds 0 (left + distance)) :
    operator.Symmetric ∧ distance = 0 := by
  have atDistance := agree distance ⟨by omega, by omega⟩
  have before := agree (distance - 1) ⟨by omega, by omega⟩
  have opposite := agree (-distance - 1) ⟨by omega, by omega⟩
  cases operator with
  | eq | ne | diamond =>
      refine ⟨by simp [CmpOp.Symmetric], ?_⟩
      simp [CmpOp.holds] at atDistance
      omega
  | lt | ge =>
      simp [CmpOp.holds] at atDistance before
      omega
  | gt | le =>
      simp [CmpOp.holds] at atDistance opposite
      omega

/-- A row of two integers: one in the column, one in all others. -/
def pairRow (column : Text) (inColumn elsewhere : Int) : Row :=
  fun name => if name = column then .int inColumn else .int elsewhere

theorem asInt_pairRow_self
    (column : Text)
    (inColumn elsewhere : Int) :
    (pairRow column inColumn elsewhere column).asInt = inColumn := by
  simp [pairRow]

theorem asInt_pairRow_of_ne
    {column name : Text}
    (different : name ≠ column)
    (inColumn elsewhere : Int) :
    (pairRow column inColumn elsewhere name).asInt = elsewhere := by
  simp [pairRow, different]

theorem inRange_pairRow
    {column name : Text}
    {inColumn elsewhere : Int}
    (first : InRange inColumn)
    (second : InRange elsewhere) :
    InRange (pairRow column inColumn elsewhere name).asInt := by
  unfold pairRow
  split_ifs
  · exact first
  · exact second

theorem wrap64_of_inRange
    {value : Int}
    (inRange : InRange value) :
    wrap64 value = value :=
  wrap64_of_bounds inRange.1 inRange.2

theorem Sign.shift_zero (sign : Sign) (value : Int) : sign.shift value 0 = value := by
  cases sign <;> simp [Sign.shift]

theorem Atom.integerRow_pairRow
    (atom : Atom)
    (column : Text)
    {inColumn elsewhere : Int}
    (first : InRange inColumn)
    (second : InRange elsewhere) :
    atom.IntegerRow (pairRow column inColumn elsewhere) := by
  intro name _
  unfold pairRow
  split_ifs
  · exact first
  · exact second

section Swap

variable {columns : List Column} {groupingAttr : List Text} {atom : Atom}

/-- The guard of an EMF atom on two rows of integers. -/
theorem Atom.test_emf
    (named : NamedColumns columns)
    (emfAtom : EmfAtom columns groupingAttr atom)
    (noAverage : contains atom.column "avg" = false)
    {env : Env}
    {kept row : Row}
    (boundIt : env.rows .it = some kept)
    (boundXt : env.rows .xt = some row)
    (keptIntegers : atom.IntegerRow kept)
    (rowIntegers : atom.IntegerRow row)
    (vectors : Nat → List Record) :
    atom.test env groupingAttr columns vectors = (atom.value.emitted row).map fun number =>
      (atom.operator.holds (kept atom.column).asInt number, vectors) := by
  rw [atom.test_eq named emfAtom.toWellFormed, Atom.eval_expr emfAtom.noString noAverage boundIt
    boundXt keptIntegers rowIntegers]
  cases atom.value.emitted row <;> rfl

/-- What an atom that tests the scanned row says about two rows. -/
theorem Atom.TestsScannedRow.agree
    (named : NamedColumns columns)
    (emfAtom : EmfAtom columns groupingAttr atom)
    (noAverage : contains atom.column "avg" = false)
    (tests : atom.TestsScannedRow groupingAttr columns)
    {kept row : Row}
    (keptIntegers : atom.IntegerRow kept)
    (rowIntegers : atom.IntegerRow row) :
    ∃ number, atom.value.emitted row = some number ∧
      atom.operator.holds (kept atom.column).asInt number =
        atom.operator.holds (row atom.column).asInt (atom.value.at kept) := by
  have here := tests ⟨[], rowsOf (some kept) (some row), none⟩ kept row (fun _ => []) rfl rfl
    keptIntegers rowIntegers
  rw [atom.test_emf named emfAtom noAverage rfl rfl keptIntegers rowIntegers,
    Option.map_eq_some_iff] at here
  obtain ⟨number, computed, equal⟩ := here
  exact ⟨number, computed, (Prod.mk.inj equal).1⟩

/-- A shifted attribute tests the scanned row only where the shift is zero and
the rows can be exchanged. -/
theorem symmetric_of_shifted
    {operator : CmpOp}
    {column name : Text}
    (sign : Sign)
    {constant : Nat}
    (small : constant < 2 ^ 63)
    (agree : ∀ p q p' q' : Int, InRange p → InRange q → InRange p' → InRange q' →
      operator.holds p (wrap64 (sign.shift (pairRow column p' q' name).asInt constant)) =
        operator.holds p' (sign.shift (pairRow column p q name).asInt constant)) :
    name = column ∧ constant = 0 ∧ operator.Symmetric := by
  have zero : InRange 0 := ⟨by omega, by omega⟩
  have shiftZero : (sign.shift 0 constant).natAbs = constant := by
    cases sign <;> simp [Sign.shift]
  have unwrapped : wrap64 (sign.shift 0 constant) = sign.shift 0 constant :=
    wrap64_of_bounds (by omega) (by omega)
  have same : name = column := by
    by_contra different
    -- with the attribute at the opposite of the shift both sides compare with zero
    have opposite : sign.shift (-sign.shift 0 constant) constant = 0 := by
      cases sign <;> simp [Sign.shift]
    have inRange : InRange (-sign.shift 0 constant) := ⟨by omega, by omega⟩
    have decided : (operator = .le ∨ operator = .gt) ∧ (0 : Int) = 2 ^ 63 - 1 := by
      refine constant_of_agree (by omega) fun left right leftRange rightRange => ?_
      have here := agree left _ right _ leftRange inRange rightRange inRange
      rw [asInt_pairRow_of_ne different, asInt_pairRow_of_ne different, opposite] at here
      exact here
    omega
  subst same
  have exchanged : operator.Symmetric ∧ sign.shift 0 constant = 0 := by
    refine symmetric_of_agree (by omega) fun left leftRange => ?_
    have here := agree left 0 0 0 leftRange zero zero zero
    have moved : sign.shift left constant = left + sign.shift 0 constant := by
      cases sign <;> simp only [Sign.shift] <;> omega
    rw [asInt_pairRow_self, asInt_pairRow_self, unwrapped, moved] at here
    exact here
  exact ⟨rfl, by omega, exchanged.1⟩

theorem CmpOp.Symmetric.comm
    {operator : CmpOp}
    (symmetric : operator.Symmetric)
    (left right : Int) :
    operator.holds left right = operator.holds right left := by
  rcases symmetric with rfl | rfl | rfl <;> simp [CmpOp.holds, eq_comm]

/-- Where exchanging the rows does not matter, the guard computes the atom. -/
theorem Atom.exchange
    (exchangeable : atom.value.Exchangeable atom.operator atom.column)
    {kept row : Row}
    (keptIntegers : atom.IntegerRow kept)
    (rowIntegers : atom.IntegerRow row) :
    ∃ number, atom.value.emitted row = some number ∧
      atom.operator.holds (kept atom.column).asInt number =
        atom.operator.holds (row atom.column).asInt (atom.value.at kept) := by
  obtain ⟨keptContent, keptStored, keptRange⟩ :=
    exists_int_of_stored (keptIntegers atom.column (List.mem_cons_self ..))
  obtain ⟨rowContent, rowStored, rowRange⟩ :=
    exists_int_of_stored (rowIntegers atom.column (List.mem_cons_self ..))
  obtain ⟨group, column, operator, value⟩ := atom
  simp only at keptStored rowStored exchangeable ⊢
  cases value with
  | str text => exact exchangeable.elim
  | int value =>
      obtain ⟨decided, rfl⟩ := exchangeable
      have fits : (2 ^ 63 - 1 : Int).natAbs < 2 ^ 63 := by omega
      refine ⟨2 ^ 63 - 1, by rw [AtomValue.emitted, if_pos fits], ?_⟩
      simp only [AtomValue.at, keptStored, rowStored, Value.asInt_int]
      rcases decided with rfl | rfl <;> simp [CmpOp.holds] <;> omega
  | attr name =>
      obtain ⟨rfl, symmetric⟩ := exchangeable
      exact ⟨(row name).asInt, rfl, symmetric.comm _ _⟩
  | shifted name sign constant =>
      obtain ⟨rfl, rfl, symmetric⟩ := exchangeable
      refine ⟨rowContent, ?_, ?_⟩
      · simp only [AtomValue.emitted, Sign.shift_zero, if_pos (by decide : 0 < 2 ^ 63), rowStored,
          Value.asInt_int, wrap64_of_inRange rowRange]
      · simp only [AtomValue.at, Sign.shift_zero, rowStored, Value.asInt_int]
        exact symmetric.comm _ _

/-- The guard of an EMF atom tests the scanned row against the group exactly
when exchanging the two rows does not matter. -/
theorem testsScannedRow_iff
    (named : NamedColumns columns)
    (emfAtom : EmfAtom columns groupingAttr atom) :
    atom.TestsScannedRow groupingAttr columns ↔ atom.SwapProof := by
  constructor
  · intro tests
    have zero : InRange 0 := ⟨by omega, by omega⟩
    have noAverage : contains atom.column "avg" = false := by
      have zeros := atom.integerRow_pairRow atom.column zero zero
      let row := pairRow atom.column 0 0
      let env : Env := ⟨[], rowsOf (some row) (some row), none⟩
      have bound : env.rows .it = some row := rfl
      have here := tests env row row (fun _ => []) bound rfl zeros zeros
      rw [Bool.eq_false_iff]
      intro average
      rw [Atom.test_average named emfAtom.toWellFormed average bound
        (zeros atom.column (List.mem_cons_self ..))] at here
      cases here
    have agree (p q p' q' : Int) (pRange : InRange p) (qRange : InRange q)
        (pRange' : InRange p') (qRange' : InRange q') :=
      tests.agree named emfAtom noAverage (atom.integerRow_pairRow atom.column pRange qRange)
        (atom.integerRow_pairRow atom.column pRange' qRange')
    refine ⟨noAverage, ?_⟩
    obtain ⟨group, column, operator, value⟩ := atom
    cases value with
    | str text => exact (emfAtom.noString text rfl).elim
    | int value =>
        have fits : value.natAbs < 2 ^ 63 := by
          obtain ⟨number, computed, -⟩ := agree 0 0 0 0 zero zero zero zero
          simp only [AtomValue.emitted, Option.ite_none_right_eq_some] at computed
          exact computed.1
        refine constant_of_agree fits fun left right leftRange rightRange => ?_
        obtain ⟨number, computed, equal⟩ := agree left 0 right 0 leftRange zero rightRange zero
        simp only [AtomValue.emitted, if_pos fits, Option.some.injEq] at computed
        subst computed
        simpa only [asInt_pairRow_self, AtomValue.at] using equal
    | attr name =>
        -- an attribute is itself shifted by zero
        have shifted : name = column ∧ 0 = 0 ∧ operator.Symmetric := by
          refine symmetric_of_shifted .plus (by omega)
            fun p q p' q' pRange qRange pRange' qRange' => ?_
          obtain ⟨number, computed, equal⟩ := agree p q p' q' pRange qRange pRange' qRange'
          simp only [AtomValue.emitted, Option.some.injEq] at computed
          subst computed
          rw [Sign.shift_zero, Sign.shift_zero, wrap64_of_inRange (inRange_pairRow pRange' qRange')]
          simpa only [asInt_pairRow_self, AtomValue.at] using equal
        exact ⟨shifted.1, shifted.2.2⟩
    | shifted name sign constant =>
        have fits : constant < 2 ^ 63 := by
          obtain ⟨number, computed, -⟩ := agree 0 0 0 0 zero zero zero zero
          simp only [AtomValue.emitted, Option.ite_none_right_eq_some] at computed
          exact computed.1
        refine symmetric_of_shifted sign fits fun p q p' q' pRange qRange pRange' qRange' => ?_
        obtain ⟨number, computed, equal⟩ := agree p q p' q' pRange qRange pRange' qRange'
        simp only [AtomValue.emitted, if_pos fits, Option.some.injEq] at computed
        subst computed
        simpa only [asInt_pairRow_self, AtomValue.at] using equal
  · rintro ⟨noAverage, exchangeable⟩ env kept row vectors boundIt boundXt keptIntegers
      rowIntegers
    obtain ⟨number, computed, equal⟩ := Atom.exchange exchangeable keptIntegers rowIntegers
    rw [atom.test_emf named emfAtom noAverage boundIt boundXt keptIntegers rowIntegers, computed,
      Option.map_some, equal]

end Swap

/-! ## The scan of one group in a finished run -/

/-- The scans before the one of group `i` write only smaller groups. -/
theorem ScanGenerator.Compiled.writesOnly_take
    {generator : ScanGenerator}
    {program : Program}
    (compiled : generator.Compiled program)
    (i : Nat) :
    (Stmt.block (program.scans.take i)).WritesOnly (· < i) := by
  refine Stmt.writesOnly_block fun scan member => ?_
  obtain ⟨k, found⟩ := List.mem_iff_getElem?.mp member
  rw [List.getElem?_take] at found
  split_ifs at found with below
  refine (compiled.writesOnly_scan found).mono fun j same => ?_
  omega

/-- Whatever the other guards do, a finished EMF program has folded the rows
its guard admits into the records of a group. -/
theorem emf_group_of_finished
    {interp : Interp}
    {generator : ScanGenerator}
    {table : List Row}
    (keyed : Keyed generator interp.cols table)
    (mode : generator.emf = true)
    {program : Program}
    (compiled : generator.Compiled program)
    {final : Machine}
    (finished : program.runScans interp table = some final)
    {i : Nat}
    (inRange : i ≤ generator.noGroupingVars)
    {cond : Text}
    (condition : generator.getSelectionCond i = some cond)
    {admits : Row → Row → Bool}
    (guarded : ∀ kept ∈ table, ∀ row ∈ table, ∀ vectors : Nat → List Record,
      interp.guard i cond (rowsOf (some kept) (some row)) vectors = some (admits kept row)) :
    final.store.group i = (firsts (keyOf generator.groupingAttr) table).map fun kept =>
      (table.filter (admits kept)).foldl
        (fun record row => applyAll (generator.bucket i) row record)
        (plainRecord generator.selectColumns kept) := by
  have length := compiled.length_scans
  obtain ⟨scan, found⟩ : ∃ scan, program.scans[i]? = some scan :=
    ⟨_, List.getElem?_eq_getElem (by omega)⟩
  obtain ⟨-, cond', condition', rfl⟩ := compiled.scan found
  cases Option.some.inj (condition.symm.trans condition')
  obtain ⟨ready, prelim, store, idle, -⟩ := generator.exec_prelimStmt interp table
  have start : ScanReady generator table ready := .of_prelimStore keyed store idle
  simp only [Program.runScans, compiled.prelim_eq, prelim, Option.bind_some] at finished
  rw [eq_take_append_cons_drop found, execAll_append] at finished
  simp only [execAll, Option.bind_eq_bind, Option.bind_eq_some_iff] at finished
  obtain ⟨before, first, after, scanned, last⟩ := finished
  rw [← exec_block] at first last
  have kept := exec_keeps (compiled.writesOnly_take i) first
  have sameGroup := kept.group_eq i (lt_irrefl i)
  have beforeReady : ScanReady generator table before :=
    { lockstep := start.lockstep.keep keyed.parsed.plain_column kept
      data_eq := kept.data_eq.trans start.data_eq
      uniques_eq := kept.uniques_eq.trans start.uniques_eq
      idle := (exec_locals first).1.trans start.idle }
  have own : ∀ aggregate ∈ generator.bucket i, aggregate.group = (i : Int) :=
    fun aggregate member => of_decide_eq_true (List.mem_filter.mp member).2
  obtain ⟨result, ran, resultStore, -⟩ := exec_emfScanStmt beforeReady inRange own
    (fun keptRow isKept row member vectors _ => guarded keptRow
      (by
        rw [beforeReady.uniques_eq] at isKept
        exact (FirstOccurrence.firsts_sublist _ table).subset isKept) row member vectors)
  rw [ScanGenerator.modeScanStmt, if_pos mode, ran] at scanned
  cases scanned
  rw [(exec_keeps (compiled.writesOnly_drop i) last).group_eq i (lt_irrefl i), resultStore,
    Store.setGroup_group_self, sameGroup, beforeReady.uniques_eq, store]
  simp only [ScanGenerator.prelimStore, inRange, if_true, keyed.getUniques_eq, gather,
    List.zipWith_map_right, List.zipWith_self]

/-- A well-formed line of a query guards its scan by an expression that is
read as the line's. -/
theorem Line.getSelectionCond_eq
    {query : Query}
    {generator : ScanGenerator}
    (built : query.scanGenerator = some generator)
    (named : NamedColumns query.columns)
    {line : Line}
    (wellFormed : line.WellFormed query.columns)
    {i : Nat}
    (written : query.selectCondVect[i]? = some line.text) :
    ∃ cond, generator.getSelectionCond (i + 1) = some cond ∧ Cpp.read cond = some line.expr := by
  obtain ⟨cond, translated, isExpr⟩ := line.read_toCpp named wellFormed query.groupingAttr
  refine ⟨cond, ?_, isExpr⟩
  rw [query.getSelectionCond_eq_translation built written, Query.translation,
    line.ofText_text named wellFormed, Option.bind_some, translated]

/-- The condition of an expression that tells a truth value. -/
theorem Cpp.condition_of_tells
    {env : Env}
    {text : Text}
    {expr : Cpp.Expr}
    {truth : Option Bool}
    (read : Cpp.read text = some expr)
    (tells : Cpp.Tells env expr truth)
    (vectors : Nat → List Record) :
    Cpp.condition env text vectors = truth.map (·, vectors) := by
  obtain ⟨value, evaluated, rfl⟩ := tells
  simp only [Cpp.condition, read, Option.bind_some, evaluated]
  cases value with
  | none => rfl
  | some value => rfl

/-- A count field started at zero counts the rows. -/
theorem asInt_count
    {bucket : List Aggregate}
    (nodup : bucket.Nodup)
    {aggregate : Aggregate}
    (member : aggregate ∈ bucket)
    (own : OwnField bucket aggregate)
    (isCount : aggregate.update = .count)
    {record : Record}
    (fresh : record aggregate.toVar = .zero)
    {rows : List Row}
    (few : rows.length < 2 ^ 63) :
    (rows.foldl (fun current row => applyAll bucket row current) record aggregate.toVar).asInt =
      rows.length := by
  have step : aggregate.fieldStep = fun value _ => value.plus (.int 1) := by
    funext value row
    simp only [Aggregate.fieldStep, isCount]
  rw [foldl_applyAll_toVar nodup member own, fresh, step, foldl_count,
    wrap64_of_bounds (by omega) (by omega)]

/-- A line of atoms that do not mind the exchange tells whether the scanned row
satisfies it against the kept one. -/
theorem Line.tells_against
    {line : Line}
    (noXor : ∀ entry ∈ line.rest, entry.1 ≠ .xor)
    {env : Env}
    {kept row : Row}
    (boundIt : env.rows .it = some kept)
    (boundXt : env.rows .xt = some row)
    (atoms : ∀ atom ∈ line.atoms, (∀ text, atom.value ≠ .str text) ∧ atom.SwapProof ∧
      atom.IntegerRow kept ∧ atom.IntegerRow row) :
    Cpp.Tells env line.expr (some (line.holds fun atom =>
      atom.operator.holds (row atom.column).asInt (atom.value.at kept))) := by
  refine Line.tells_holds noXor fun atom inLine => ?_
  obtain ⟨noString, ⟨noAverage, exchangeable⟩, keptIntegers, rowIntegers⟩ := atoms atom inLine
  obtain ⟨number, computed, equal⟩ := Atom.exchange exchangeable keptIntegers rowIntegers
  refine ⟨some (.bool (atom.operator.holds (kept atom.column).asInt number)),
    fun vectors => ?_, by rw [equal]; rfl⟩
  rw [Atom.eval_expr noString noAverage boundIt boundXt keptIntegers rowIntegers, computed]
  rfl

/-- The number of rows that satisfy a line against the row of a group. -/
def Line.countAgainst (line : Line) (table : List Row) (kept : Row) : Nat :=
  (table.filter fun row => line.holds fun atom =>
    atom.operator.holds (row atom.column).asInt (atom.value.at kept)).length

/-- The guard of an EMF atom tests the scanned row against the row of the
group exactly when exchanging the two rows does not matter; and the count of a
group whose line has only such atoms is the number of table rows that satisfy
the line against the group. -/
theorem emf_guard_tests_scanned_row_iff
    (query : Query)
    (named : NamedColumns query.columns) :
    (∀ atom, EmfAtom query.columns query.groupingAttr atom →
      (atom.TestsScannedRow query.groupingAttr query.columns ↔ atom.SwapProof)) ∧
    ∀ (cols : List Ct) (table : List Row) (generator : ScanGenerator) (program : Program)
      (final : Machine) (i : Nat) (line : Line) (column : Text),
      query.emf = true → query.scanGenerator = some generator →
      generator.program = some program → query.KeyedBy cols table →
      generator.allAggregates.Nodup → table.length < 2 ^ 63 →
      program.runScans (cppInterp cols) table = some final →
      query.selectCondVect[i]? = some line.text → line.WellFormed query.columns →
      (∀ entry ∈ line.rest, entry.1 ≠ .xor) →
      (∀ atom ∈ line.atoms, EmfAtom query.columns query.groupingAttr atom ∧ atom.SwapProof ∧
        ∀ row ∈ table, atom.IntegerRow row) →
      ⟨i + 1, "count", column⟩ ∈ generator.allAggregates →
        ∀ key ∈ table.map (keyOf query.groupingAttr),
          let p := keyIndex (keyOf query.groupingAttr) final.store.uniques key
          ∃ kept record, final.store.uniques[p]? = some kept ∧
            keyOf query.groupingAttr kept = key ∧
            (final.store.group (i + 1))[p]? = some record ∧
            (record (Aggregate.toVar ⟨i + 1, "count", column⟩)).asInt =
              line.countAgainst table kept := by
  refine ⟨fun atom emfAtom => testsScannedRow_iff named emfAtom, ?_⟩
  intro cols table generator program final i line column emf built compiled keyedBy distinct
    fewRows finished written wellFormed noXor atoms counted key member
  have keyed : Keyed generator (cppInterp cols).cols table := keyedBy.keyed built
  have shape := ScanGenerator.compiled_of_program compiled
  have inRange : i + 1 ≤ generator.noGroupingVars := by
    have bound : ((i : Int) + 1) ≤ generator.noGroupingVars := (shape.inRange _ counted).2
    omega
  obtain ⟨cond, condition, read⟩ := Line.getSelectionCond_eq built named wellFormed written
  have guarded : ∀ kept ∈ table, ∀ row ∈ table, ∀ vectors : Nat → List Record,
      (cppInterp cols).guard (i + 1) cond (rowsOf (some kept) (some row)) vectors =
        some (line.holds fun atom =>
          atom.operator.holds (row atom.column).asInt (atom.value.at kept)) := by
    intro kept keptIn row rowIn vectors
    let env : Env := ⟨cols, rowsOf (some kept) (some row), none⟩
    have boundIt : env.rows .it = some kept := rfl
    have tells := Line.tells_against noXor boundIt rfl fun atom inLine => by
      obtain ⟨emfAtom, swapProof, integers⟩ := atoms atom inLine
      exact ⟨emfAtom.noString, swapProof, integers kept keptIn, integers row rowIn⟩
    have told := Cpp.condition_of_tells read tells vectors
    simp only [cppInterp]
    rw [told]
    rfl
  have parts := Query.builtFrom built
  have mode : generator.emf = true ∧ generator.groupingAttr = query.groupingAttr :=
    ⟨parts.emf_eq.trans emf, parts.groupingAttr_eq⟩
  have group := emf_group_of_finished keyed mode.1 shape finished inRange condition guarded
  have uniques := (runScans_inStep keyed shape finished).uniques_eq
  rw [mode.2] at group uniques
  obtain ⟨kept, atIndex, keptKey⟩ :=
    FirstOccurrence.exists_getElem?_keyIndex (keyOf query.groupingAttr) member
  rw [uniques]
  refine ⟨kept, _, atIndex, keptKey, by rw [group, List.getElem?_map, atIndex]; rfl, ?_⟩
  have named : Aggregate.func ⟨i + 1, "count", column⟩ = RefFunc.count.text := rfl
  have isCount := RefFunc.update_eq named
  have inBucket : ⟨i + 1, "count", column⟩ ∈ generator.bucket (i + 1) :=
    List.mem_filter.mpr ⟨counted, decide_eq_true rfl⟩
  have inGroup : Aggregate.group ⟨i + 1, "count", column⟩ = ((i + 1 : Nat) : Int) := rfl
  have own := keyed.parsed.ownField inGroup (by rw [isCount]; decide)
  exact asInt_count (distinct.filter _) inBucket own isCount
    (plainRecord_toVar keyed.parsed.plain_column _ kept)
    ((List.length_filter_le ..).trans_lt fewRows)

/-- The months of a table of sales, each with the number of its sales. -/
def monthQuery : Query where
  columns := [⟨"month", .int⟩, ⟨"quant", .int⟩]
  selectAttribute := ["month", "1_count_quant"]
  noGroupingVars := 1
  groupingAttr := ["month"]
  fVect := ["1_count_quant"]
  selectCondVect := ["1.month=month"]
  having := []
  emf := true

/-- Two sales in month one and a sale in month two. -/
def monthTable : List Row := [pairRow "month" 1 4, pairRow "month" 2 9, pairRow "month" 1 7]

theorem monthQuery_keyedBy : monthQuery.KeyedBy [⟨"month", .int64⟩] monthTable where
  key_types := rfl
  typed := by
    intro col member
    rw [List.mem_singleton] at member
    subst col
    refine ⟨.inr rfl, ?_⟩
    simp only [monthTable, List.forall_mem_cons, List.not_mem_nil, false_implies, implies_true,
      and_true]
    exact ⟨⟨1, rfl⟩, ⟨2, rfl⟩, ⟨1, rfl⟩⟩
  plain := by decide

theorem integerRow_monthTable (atom : Atom) : ∀ row ∈ monthTable, atom.IntegerRow row := by
  simp only [monthTable, List.forall_mem_cons, List.not_mem_nil, false_implies, implies_true,
    and_true]
  refine ⟨?_, ?_, ?_⟩ <;> exact atom.integerRow_pairRow _ (by decide) (by decide)

/-- `1.month<month` is not tested on the scanned row; with `1.month=month` the
count of month one is two. -/
theorem emf_guard_tests_scanned_row_iff_month :
    ¬(Atom.mk 1 "month" .lt (.attr "month")).TestsScannedRow ["month"] monthQuery.columns ∧
      ∃ generator program final, monthQuery.scanGenerator = some generator ∧
        generator.program = some program ∧
        program.runScans (cppInterp [⟨"month", .int64⟩]) monthTable = some final ∧
        ∃ (p : Nat) (record : Record), (final.store.group 1)[p]? = some record ∧
          (record "count_quant").asInt = 2 := by
  have named : NamedColumns monthQuery.columns := by
    simp only [NamedColumns, monthQuery, List.forall_mem_cons, List.not_mem_nil, false_implies,
      implies_true, and_true]
    decide
  have emfAtom (operator : CmpOp) : EmfAtom monthQuery.columns monthQuery.groupingAttr
      ⟨1, "month", operator, .attr "month"⟩ :=
    { group_lt := by simp
      column_mem := ⟨_, List.mem_cons_self .., rfl⟩
      value := ⟨_, List.mem_cons_self .., rfl⟩
      noString := by simp
      grouping := by simp [AtomValue.names, monthQuery] }
  obtain ⟨tests, counts⟩ := emf_guard_tests_scanned_row_iff monthQuery named
  refine ⟨fun scanned => ?_, ?_⟩
  · obtain ⟨-, -, symmetric⟩ := (tests _ (emfAtom .lt)).mp scanned
    rcases symmetric with equal | equal | equal <;> cases equal
  · obtain ⟨generator, built⟩ := Option.isSome_iff_exists.mp
      (by rfl : monthQuery.scanGenerator.isSome = true)
    obtain ⟨program, compiled⟩ := Option.isSome_iff_exists.mp
      (by cases built; rfl : generator.program.isSome = true)
    obtain ⟨final, finished⟩ := Option.isSome_iff_exists.mp
      (by cases built; cases compiled; rfl :
        (program.runScans (cppInterp [⟨"month", .int64⟩]) monthTable).isSome = true)
    have counted := counts [⟨"month", .int64⟩] monthTable generator program final 0
      ⟨⟨1, "month", .eq, .attr "month"⟩, []⟩ "quant" rfl built compiled monthQuery_keyedBy
      (by cases built; decide) (by decide) finished rfl
      ⟨by simpa [Line.atoms] using (emfAtom .eq).toWellFormed,
        by simp [Line.atoms, AtomValue.Spaceless]⟩
      (by simp)
      (by
        intro atom member
        rw [Line.atoms, List.map_nil, List.mem_singleton] at member
        subst member
        exact ⟨emfAtom .eq, ⟨by decide, rfl, .inl rfl⟩, integerRow_monthTable _⟩)
      (by cases built; decide) [.int 1] (by decide)
    obtain ⟨kept, record, -, keptKey, stored, value⟩ := counted
    refine ⟨generator, program, final, built, compiled, finished, _, record, stored, ?_⟩
    have month : kept "month" = .int 1 := by simpa [keyOf, monthQuery] using keptKey
    have two : Line.countAgainst ⟨⟨1, "month", .eq, .attr "month"⟩, []⟩ monthTable kept = 2 := by
      simp only [Line.countAgainst, Line.holds, AtomValue.at, month, List.map_nil]
      decide
    rw [two] at value
    exact value

/-- The sale of month one is before the group of month two, but the guard
emitted for `1.month<month` is false. -/
theorem emf_rows_exchanged :
    ((Atom.mk 1 "month" .lt (.attr "month")).test
        ⟨[], rowsOf (some (pairRow "month" 2 0)) (some (pairRow "month" 1 0)), none⟩ ["month"]
        monthQuery.columns (fun _ => [])).map Prod.fst = some false ∧
      CmpOp.lt.holds (pairRow "month" 1 0 "month").asInt
        (AtomValue.at (pairRow "month" 2 0) (.attr "month")) = true := by
  decide

end MfQuery
