import MfQuery.Program.EmfGuard

/-!
# Guards that read one row

The guard of an MF scan whose atoms compare columns with literals reads
nothing but the scanned row: neither the group vectors nor the position of the
row in the table. A completed scan has evaluated it on every row.
-/

namespace MfQuery

open Text

/-! ## Expressions with a fixed value -/

/-- Whatever the group vectors hold, the expression leaves them alone and has
the given value, or fails. -/
def Cpp.Fixed (env : Env) (expr : Cpp.Expr) (value : Option Val) : Prop :=
  ∀ vectors, Cpp.eval env expr vectors = value.map (·, vectors)

namespace Cpp.Fixed

variable {env : Env} {expr left right : Cpp.Expr} {value leftValue rightValue : Option Val}

theorem unary
    (fixed : Fixed env expr value)
    (operator : Cpp.UnOp) :
    Fixed env (.unary operator expr) (value.bind (operator.apply env)) := by
  intro vectors
  simp only [Cpp.eval, fixed vectors]
  cases value <;> rfl

theorem comparison
    (leftFixed : Fixed env left leftValue)
    (rightFixed : Fixed env right rightValue)
    (operator : CmpOp) :
    Fixed env (.binary operator.binOp left right)
      (leftValue.bind fun first => rightValue.bind (operator.binOp.apply first)) := by
  intro vectors
  have unfolds : Cpp.eval env (.binary operator.binOp left right) vectors =
      (Cpp.eval env left vectors).bind fun first => (Cpp.eval env right first.2).bind fun second =>
        (operator.binOp.apply first.1 second.1).map (·, second.2) := by
    cases operator <;> rfl
  rw [unfolds, leftFixed vectors]
  cases leftValue with
  | none => rfl
  | some first =>
      simp only [Option.map_some, Option.bind_some, rightFixed vectors]
      cases rightValue <;> rfl

theorem dot
    (fixed : Fixed env expr value)
    (field : Text) :
    Fixed env (.dot expr field) (value.bind (Cpp.dotVal · field)) := by
  intro vectors
  simp only [Cpp.eval, fixed vectors]
  cases value <;> rfl

theorem supply
    (leftFixed : Fixed env left leftValue)
    (rightFixed : Fixed env right rightValue) :
    Fixed env (.supply left right)
      (leftValue.bind fun function => rightValue.bind (Cpp.supplyVal function)) := by
  intro vectors
  simp only [Cpp.eval, leftFixed vectors]
  cases leftValue with
  | none => rfl
  | some function =>
      simp only [Option.map_some, Option.bind_some, rightFixed vectors]
      cases rightValue <;> rfl

/-- Calls of functions that do not look at the vectors. -/
theorem call
    (fixed : Fixed env expr value)
    (result : Val → Option Val)
    (noVectors : ∀ function ∈ value, ∀ vectors,
      Cpp.callVal env.cols vectors function = result function) :
    Fixed env (.call expr) (value.bind result) := by
  intro vectors
  simp only [Cpp.eval, fixed vectors]
  cases value with
  | none => rfl
  | some function =>
      simp only [Option.map_some, Option.bind_some, noVectors function rfl vectors]

theorem tells (fixed : Fixed env expr value) : Tells env expr (value.bind Val.truth) :=
  ⟨value, fixed, rfl⟩

end Cpp.Fixed

section Literal

variable {env : Env} {row : Row}

/-- The results of the methods of fields. -/
def methodResult : Val → Option Val
  | .valueOf content => some (.num true content.average.asInt)
  | .compareOf text (some other) => some (.num false (Cpp.compareSign text other))
  | _ => none

/-- The compared column of the scanned row. -/
theorem exists_fixed_operand
    (bound : env.rows .it = some row)
    (column : Text) :
    ∃ value, Cpp.Fixed env (operandExpr column) value := by
  have member : Cpp.Fixed env (Cpp.Parser.memberExpr Iter.it.name column)
      (some (.cell (row column) none)) := eval_member bound column
  unfold operandExpr
  split_ifs
  · refine ⟨_, (member.dot "value").call methodResult fun function isMethod vectors => ?_⟩
    simp only [Option.bind_some, Cpp.dotVal, if_true] at isMethod
    cases content : row column <;> simp [content] at isMethod <;> subst isMethod <;> rfl
  · exact ⟨_, member⟩

theorem exists_fixed_integer
    (env : Env)
    (value : Int) :
    ∃ result, Cpp.Fixed env (integerExpr value) result := by
  have digits : Cpp.Fixed env (.number (numeral value.natAbs))
      (literal (numeral value.natAbs)) := fun _ => rfl
  unfold integerExpr
  split_ifs
  · exact ⟨_, digits.unary .neg⟩
  · exact ⟨_, digits⟩

/-- A comparison with a string literal. -/
theorem exists_fixed_compareString
    {left : Cpp.Expr}
    {value : Option Val}
    (fixed : Cpp.Fixed env left value)
    (text : Text) :
    ∃ result, Cpp.Fixed env (.call (.supply (.dot left "compare") (.string text))) result := by
  have literal : Cpp.Fixed env (.string text) (some (.str text)) := fun _ => rfl
  refine ⟨_, ((fixed.dot "compare").supply literal).call methodResult
    fun function isMethod vectors => ?_⟩
  -- only `compare` takes an argument here
  simp only [Option.bind_some, Option.mem_def, Option.bind_eq_some_iff] at isMethod
  obtain ⟨method, ⟨content, -, isDot⟩, supplied⟩ := isMethod
  cases content with
  | cell content place =>
      have method_eq : Cpp.dotVal (.cell content place) "compare" =
          (Val.cell content none).asText.map fun text => .compareOf text none := rfl
      rw [method_eq] at isDot
      obtain ⟨own, -, rfl⟩ := Option.map_eq_some_iff.mp isDot
      cases supplied
      rfl
  | _ => simp [Cpp.dotVal] at isDot

/-- Values that are literals. -/
def AtomValue.IsLiteral : AtomValue → Prop
  | int _ | str _ => True
  | attr _ | shifted _ _ _ => False

theorem Atom.exists_fixed_expr
    {atom : Atom}
    (isLiteral : atom.value.IsLiteral)
    (bound : env.rows .it = some row) :
    ∃ value, Cpp.Fixed env atom.expr value := by
  obtain ⟨column, operand⟩ := exists_fixed_operand bound atom.column
  unfold Atom.expr
  cases literal : atom.value with
  | int value =>
      obtain ⟨number, integer⟩ := exists_fixed_integer env value
      exact ⟨_, operand.comparison integer atom.operator⟩
  | str text =>
      obtain ⟨sign, compared⟩ := exists_fixed_compareString operand text
      have zero : Cpp.Fixed env (.number (numeral 0)) (some (.num false 0)) := fun _ => rfl
      exact ⟨_, compared.comparison zero .eq⟩
  | attr name =>
      rw [literal] at isLiteral
      exact isLiteral.elim
  | shifted name sign constant =>
      rw [literal] at isLiteral
      exact isLiteral.elim

end Literal

/-! ## Lines of literals -/

/-- What an emitted guard finds for a line on one row; it fails where the
guard does. -/
def Line.truthAt (line : Line) (cols : List Ct) (row : Row) : Option Bool :=
  (Cpp.eval ⟨cols, rowsOf (some row) none, none⟩ line.expr fun _ => []).bind fun result =>
    result.1.truth

theorem Line.tells_truthAt
    {line : Line}
    (literals : ∀ atom ∈ line.atoms, atom.value.IsLiteral)
    (cols : List Ct)
    (row : Row) :
    Cpp.Tells ⟨cols, rowsOf (some row) none, none⟩ line.expr (line.truthAt cols row) := by
  let env : Env := ⟨cols, rowsOf (some row) none, none⟩
  have bound : env.rows .it = some row := rfl
  have each : ∀ atom ∈ line.atoms, Cpp.Tells env atom.expr
      ((Cpp.eval env atom.expr fun _ => []).bind fun result => result.1.truth) := by
    intro atom member
    obtain ⟨value, fixed⟩ := Atom.exists_fixed_expr (literals atom member) bound
    have told := fixed.tells
    rw [fixed]
    cases value <;> exact told
  obtain ⟨value, fixed, told⟩ := Line.tells_expr each
  refine ⟨value, fixed, ?_⟩
  rw [Line.truthAt, fixed]
  cases value <;> rfl

/-- The such-that lines of an MF query compare columns with literals. -/
structure LiteralLines (query : Query) (lines : List Line) : Prop where
  mf : query.emf = false
  named : NamedColumns query.columns
  written : query.selectCondVect = lines.map Line.text
  wellFormed : ∀ line ∈ lines, line.WellFormed query.columns
  literals : ∀ line ∈ lines, ∀ atom ∈ line.atoms, atom.value.IsLiteral

/-- The meaning of the guards of such lines. -/
def rowGuards (cols : List Ct) (lines : List Line) : Guards where
  admits i _ rows := match i, rows .it with
    | 0, _ => true
    | i + 1, some row => (lines[i]?.bind fun line => line.truthAt cols row).getD false
    | _ + 1, none => false
  reads_smaller _ _ _ _ _ := rfl
  zero _ _ := rfl

/-- Every guard of a table has a truth value on every row. -/
def Defined (cols : List Ct) (lines : List Line) (n : Nat) (table : List Row) : Prop :=
  ∀ i < n, ∀ line, lines[i]? = some line → ∀ row ∈ table, (line.truthAt cols row).isSome

section Guards

variable {query : Query} {generator : ScanGenerator} {lines : List Line} {cols : List Ct}

/-- The emitted guard of a line on a row. -/
theorem LiteralLines.guard_eq
    (literal : LiteralLines query lines)
    (built : query.scanGenerator = some generator)
    {i : Nat}
    {cond : Text}
    (condition : generator.getSelectionCond (i + 1) = some cond)
    (row : Row)
    (group : Nat → List Record) :
    ∃ line, lines[i]? = some line ∧
      (cppInterp cols).guard (i + 1) cond (rowsOf (some row) none) group =
        line.truthAt cols row := by
  have parsed : generator.selectConditions = lines.map Line.conditions := by
    have conditions := (Query.builtFrom built).selectConditions_eq
    have each : ∀ line ∈ lines, Conditions.ofText line.text = some line.conditions :=
      fun line member => line.ofText_text literal.named (literal.wellFormed line member)
    rw [getConditions, literal.written, List.mapM_map] at conditions
    exact Option.some.inj (conditions.symm.trans (mapM_eq_some_map each))
  cases found : lines[i]? with
  | none =>
      simp [ScanGenerator.getSelectionCond, parsed, found] at condition
  | some line =>
      have member := List.mem_of_getElem? found
      have writtenHere : query.selectCondVect[i]? = some line.text := by
        rw [literal.written, List.getElem?_map, found]
        rfl
      obtain ⟨text, translated, read⟩ := Line.getSelectionCond_eq built literal.named
        (literal.wellFormed line member) writtenHere
      rw [condition, Option.some.injEq] at translated
      subst translated
      have told := Cpp.condition_of_tells read
        (Line.tells_truthAt (literal.literals line member) cols row) group
      refine ⟨line, rfl, ?_⟩
      simp only [cppInterp]
      rw [told]
      cases line.truthAt cols row <;> rfl

theorem guard_zero
    (cols : List Ct)
    (rows : Iter → Option Row)
    (group : Nat → List Record) :
    (cppInterp cols).guard 0 "true" rows group = some true := rfl

/-- Where they have truth values, the guards of literal lines mean
`rowGuards`. -/
theorem LiteralLines.meantBy
    (literal : LiteralLines query lines)
    (built : query.scanGenerator = some generator)
    {table : List Row}
    (defined : Defined cols lines query.noGroupingVars table) :
    (rowGuards cols lines).MeantBy (cppInterp cols) generator table := by
  have parts := Query.builtFrom built
  have modes : generator.emf = false ∧ generator.noGroupingVars = query.noGroupingVars :=
    ⟨parts.emf_eq.trans literal.mf, parts.noGroupingVars_eq⟩
  intro i inRange cond condition group
  rw [if_neg (by rw [modes.1]; exact Bool.false_ne_true)]
  intro row member
  cases i with
  | zero =>
      cases condition
      rfl
  | succ i =>
      obtain ⟨line, found, guard⟩ := literal.guard_eq built condition row group
      have some_ := defined i (by omega) line found row member
      rw [guard]
      simp only [rowGuards, rowsOf, found, Option.bind_some]
      obtain ⟨truth, isTruth⟩ := Option.isSome_iff_exists.mp some_
      rw [isTruth]
      rfl

/-! ## Completed scans -/

/-- A completed loop has run its body at every row. -/
theorem iterate_visits
    {kind : Loop}
    {body : Machine → Option Machine}
    (invariant : Machine → Prop)
    (step : ∀ machine row index next, invariant machine →
      body (machine.enter kind row index) = some next → invariant next)
    {rows : List Row}
    {index : Nat}
    {machine final : Machine}
    (initial : invariant machine)
    (finished : iterate body kind rows index machine = some final)
    {row : Row}
    (member : row ∈ rows) :
    ∃ current position next, invariant current ∧
      body (current.enter kind row position) = some next := by
  induction rows generalizing index machine with
  | nil => cases member
  | cons first rows inductionHypothesis =>
      simp only [iterate, Option.bind_eq_bind, Option.bind_eq_some_iff] at finished
      obtain ⟨next, stepped, later⟩ := finished
      rcases List.mem_cons.mp member with rfl | inRest
      · exact ⟨machine, index, next, initial, stepped⟩
      · exact inductionHypothesis (step _ _ _ _ initial stepped) later inRest

/-- A completed MF scan has evaluated its guard on every row. -/
theorem guard_isSome_of_scanStmt
    {interp : Interp}
    {i : Nat}
    {bucket : List Aggregate}
    {cond : Text}
    {machine final : Machine}
    (idle : machine.row = rowsOf none none)
    (finished : exec interp (generator.scanStmt i bucket cond) machine = some final)
    {row : Row}
    (member : row ∈ machine.store.data) :
    ∃ group, (interp.guard i cond (rowsOf (some row) none) group).isSome := by
  rw [ScanGenerator.scanStmt, exec, Option.bind_eq_bind, Option.bind_eq_some_iff] at finished
  obtain ⟨last, looped, -⟩ := finished
  obtain ⟨current, position, next, free, ran⟩ := iterate_visits
    (fun current => current.row .xt = none)
    (by
      intro current other position next free stepped
      rw [(exec_locals stepped).1]
      exact free)
    (by rw [idle]; rfl) looped member
  simp only [exec, Option.bind_eq_bind, Option.bind_some, Option.bind_eq_some_iff] at ran
  obtain ⟨admitted, guarded, -⟩ := ran
  have rows : (current.enter .scan row position).row = rowsOf (some row) none := by
    funext iter
    cases iter with
    | it => simp [Machine.enter, Loop.iter, rowsOf]
    | xt => simpa [Machine.enter, Loop.iter, rowsOf] using free
  rw [rows] at guarded
  exact ⟨_, Option.isSome_iff_exists.mpr ⟨admitted, guarded⟩⟩

/-- A completed program has evaluated every guard on every row. -/
theorem LiteralLines.defined
    (literal : LiteralLines query lines)
    (built : query.scanGenerator = some generator)
    {program : Program}
    (compiled : generator.Compiled program)
    {table : List Row}
    {machine : Machine}
    (finished : program.runScans (cppInterp cols) table = some machine) :
    Defined cols lines query.noGroupingVars table := by
  have parts := Query.builtFrom built
  have modes : generator.emf = false ∧ generator.noGroupingVars = query.noGroupingVars :=
    ⟨parts.emf_eq.trans literal.mf, parts.noGroupingVars_eq⟩
  intro i below line found row member
  have inside : i + 1 < program.scans.length := by
    rw [compiled.length_scans]
    omega
  have atIndex := List.getElem?_eq_getElem inside
  obtain ⟨-, cond, condition, scan⟩ := compiled.scan atIndex
  obtain ⟨ready, prelim, store, idle, -⟩ := generator.exec_prelimStmt (cppInterp cols) table
  simp only [Program.runScans, compiled.prelim_eq, prelim, Option.bind_some] at finished
  rw [eq_take_append_cons_drop atIndex, execAll_append] at finished
  simp only [execAll, Option.bind_eq_bind, Option.bind_eq_some_iff] at finished
  obtain ⟨before, first, after, scanned, -⟩ := finished
  rw [← exec_block] at first
  have data : before.store.data = table := by
    rw [(exec_keeps (compiled.writesOnly_take _) first).data_eq, store]
    rfl
  have resting : before.row = rowsOf none none := by
    rw [(exec_locals first).1, idle]
    funext iter
    cases iter <;> rfl
  rw [scan, ScanGenerator.modeScanStmt, if_neg (by rw [modes.1]; exact Bool.false_ne_true)]
    at scanned
  obtain ⟨group, evaluated⟩ := guard_isSome_of_scanStmt resting scanned (data ▸ member)
  obtain ⟨other, same, guard⟩ := literal.guard_eq built condition row group
  rw [guard] at evaluated
  rw [found, Option.some.injEq] at same
  rw [same]
  exact evaluated

end Guards
end MfQuery
