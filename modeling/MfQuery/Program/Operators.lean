import MfQuery.Program.Guard

/-!
# Comparison operators in emitted guards

A comparison with an integer literal keeps its operator on the way into the
emitted guard. A comparison with a string literal does not: whatever the
operator was, the guard tests `compare(...) == 0`, so it is right for `=` and,
because no text precedes the empty one, for `<=` with the empty literal.
-/

namespace MfQuery

open Text

/-- The guard emitted for one atom. -/
def Atom.guard (atom : Atom) (groupingAttr : List Text) (columns : List Column) : Option Text :=
  (Condition.ofText atom.text).bind fun condition =>
    condition.toCpp "(*it)" "(*xt)" groupingAttr columns

/-- The emitted guard evaluated on loop rows and group vectors. -/
def Atom.test
    (atom : Atom)
    (env : Env)
    (groupingAttr : List Text)
    (columns : List Column)
    (vectors : Nat → List Record) : Option (Bool × (Nat → List Record)) :=
  (atom.guard groupingAttr columns).bind fun text => Cpp.condition env text vectors

/-- The guard of a well-formed atom evaluates as the atom's expression. -/
theorem Atom.test_eq
    {columns : List Column}
    {atom : Atom}
    (named : NamedColumns columns)
    (wellFormed : atom.WellFormed columns)
    (env : Env)
    (groupingAttr : List Text)
    (vectors : Nat → List Record) :
    atom.test env groupingAttr columns vectors =
      (Cpp.eval env atom.expr vectors).bind fun result =>
        result.1.truth.map (·, result.2) := by
  obtain ⟨text, translated, writes⟩ := atom.toCpp_writes named wellFormed groupingAttr
  have read : Cpp.read text = some atom.expr := by
    have line := Cpp.read_line .nil writes
    simpa [Cpp.lineTail, Precedence.chain] using line
  simp only [Atom.test, Atom.guard, atom.ofText_text named wellFormed, Option.bind_some,
    translated, Cpp.condition, read]

/-! ## Evaluation of the left-hand side -/

theorem eval_operand
    {column : Text}
    (noAverage : contains column "avg" = false)
    {env : Env}
    {row : Row}
    (bound : env.rows .it = some row)
    (vectors : Nat → List Record) :
    Cpp.eval env (operandExpr column) vectors = some (.cell (row column) none, vectors) := by
  rw [operandExpr, noAverage, if_neg Bool.false_ne_true]
  exact eval_member bound column vectors

/-- What a table field of an integer or a string column holds. -/
def Stored : CppType → Value → Prop
  | .int64, .int value => -2 ^ 63 ≤ value ∧ value < 2 ^ 63
  | .string, .str _ => True
  | _, _ => False

/-- A table field has no `value()`. -/
theorem eval_operand_average
    {column : Text}
    (average : contains column "avg" = true)
    {env : Env}
    {row : Row}
    (bound : env.rows .it = some row)
    {type : CppType}
    (stored : Stored type (row column))
    (vectors : Nat → List Record) :
    Cpp.eval env (operandExpr column) vectors = none := by
  have member := eval_member bound column vectors
  have noValue : Cpp.dotVal (.cell (row column) none) "value" = none := by
    cases content : row column with
    | int value => rfl
    | str text => rfl
    | zero =>
        rw [content] at stored
        cases type <;> exact stored.elim
    | avg count sum =>
        rw [content] at stored
        cases type <;> exact stored.elim
  rw [operandExpr, if_pos average]
  simp only [Cpp.eval, member, Option.bind_some, noValue, Option.map_none, Option.bind_none]

/-- An expression whose left operand fails, fails. -/
theorem eval_binOp_of_left_none
    {env : Env}
    {left : Cpp.Expr}
    {vectors : Nat → List Record}
    (failed : Cpp.eval env left vectors = none)
    (operator : CmpOp)
    (right : Cpp.Expr) :
    Cpp.eval env (.binary operator.binOp left right) vectors = none := by
  cases operator <;> simp [CmpOp.binOp, Cpp.eval, failed]

/-- A comparison evaluates both sides. -/
theorem eval_binOp
    {env : Env}
    {left : Cpp.Expr}
    {leftValue : Val}
    {vectors : Nat → List Record}
    (evaluated : Cpp.eval env left vectors = some (leftValue, vectors))
    (operator : CmpOp)
    (right : Cpp.Expr) :
    Cpp.eval env (.binary operator.binOp left right) vectors =
      (Cpp.eval env right vectors).bind fun result =>
        (operator.binOp.apply leftValue result.1).map (·, result.2) := by
  cases operator <;> simp [CmpOp.binOp, Cpp.eval, evaluated]

/-! ## Literals -/

theorem compareSign_eq_zero
    (left right : Text) :
    Cpp.compareSign left right = 0 ↔ left = right := by
  unfold Cpp.compareSign
  split_ifs with less equal
  · simp only [false_iff]
    rintro rfl
    exact List.lt_irrefl _ less
  · simpa using equal
  · simpa using equal

/-- Evaluation of `left.compare("text") == 0` on a string. -/
theorem eval_compareString
    {env : Env}
    {left : Cpp.Expr}
    {content : Text}
    {vectors : Nat → List Record}
    (evaluated : Cpp.eval env left vectors = some (.cell (.str content) none, vectors))
    (text : Text) :
    Cpp.eval env (.binary .eq (.call (.supply (.dot left "compare") (.string text)))
        (.number (numeral 0))) vectors =
      some (.bool (decide (content = text)), vectors) := by
  have method : Cpp.dotVal (.cell (.str content) none) "compare" =
      some (.compareOf content none) := rfl
  have called : Cpp.eval env (.call (.supply (.dot left "compare") (.string text))) vectors =
      some (.num false (Cpp.compareSign content text), vectors) := by
    simp only [Cpp.eval, evaluated, Option.bind_some, method, Option.map_some, Cpp.supplyVal,
      Val.asText, Cpp.callVal]
  have zero : Cpp.eval env (.number (numeral 0)) vectors = some (.num false 0, vectors) := rfl
  have compared := eval_binOp called .eq (.number (numeral 0))
  rw [zero, Option.bind_some, CmpOp.apply_binOp .eq rfl rfl] at compared
  simp only [CmpOp.holds, compareSign_eq_zero, Option.map_some] at compared
  exact compared

section Literal

variable {columns : List Column} {env : Env} {row : Row} {group : Nat} {column : Text}
  {operator : CmpOp}

/-- The guard of a comparison with an integer literal. -/
theorem Atom.test_int
    (named : NamedColumns columns)
    {value : Int}
    (wellFormed : (Atom.mk group column operator (.int value)).WellFormed columns)
    (noAverage : contains column "avg" = false)
    (bound : env.rows .it = some row)
    {content : Int}
    (stored : row column = .int content)
    (groupingAttr : List Text)
    (vectors : Nat → List Record) :
    (Atom.mk group column operator (.int value)).test env groupingAttr columns vectors =
      if value.natAbs < 2 ^ 63 then some (operator.holds content value, vectors) else none := by
  have left := eval_operand noAverage bound vectors
  have compared := eval_binOp left operator (integerExpr value)
  rw [Atom.test_eq named wellFormed, Atom.expr, compared]
  split_ifs with fits
  · obtain ⟨wide, right⟩ := eval_integer fits env vectors
    have leftNum : (Val.cell (row column) none).asNum = some (true, content) := by
      rw [stored]
      rfl
    have applied := operator.apply_binOp leftNum (rfl : (Val.num wide value).asNum = _)
    simp [right, applied, Val.truth]
  · simp [eval_integer_of_large fits]

/-- The guard of a comparison with a string literal is an equality test. -/
theorem Atom.test_str
    (named : NamedColumns columns)
    {text : Text}
    (wellFormed : (Atom.mk group column operator (.str text)).WellFormed columns)
    (noAverage : contains column "avg" = false)
    (bound : env.rows .it = some row)
    {content : Text}
    (stored : row column = .str content)
    (groupingAttr : List Text)
    (vectors : Nat → List Record) :
    (Atom.mk group column operator (.str text)).test env groupingAttr columns vectors =
      some (decide (content = text), vectors) := by
  have left := eval_operand noAverage bound vectors
  rw [stored] at left
  rw [Atom.test_eq named wellFormed, Atom.expr, eval_compareString left text]
  rfl

/-- No guard on a column whose name contains `avg` evaluates. -/
theorem Atom.test_average
    (named : NamedColumns columns)
    {value : AtomValue}
    (wellFormed : (Atom.mk group column operator value).WellFormed columns)
    (average : contains column "avg" = true)
    (bound : env.rows .it = some row)
    {type : CppType}
    (stored : Stored type (row column))
    (groupingAttr : List Text)
    (vectors : Nat → List Record) :
    (Atom.mk group column operator value).test env groupingAttr columns vectors = none := by
  have left := eval_operand_average average bound stored vectors
  rw [Atom.test_eq named wellFormed, Atom.expr]
  cases value with
  | int value => simp [eval_binOp_of_left_none left]
  | str text => simp only [Cpp.eval, left, Option.bind_none]
  | attr name => simp [eval_binOp_of_left_none left]
  | shifted name sign constant => simp [eval_binOp_of_left_none left]

end Literal

/-! ## Which operators survive -/

/-- The meaning of a comparison of a field with a literal. -/
def literalHolds (operator : CmpOp) : AtomValue → Value → Bool
  | .int value, .int content => operator.holds content value
  | .str text, .str content => operator.holds content text
  | _, _ => false

/-- Literals for a column: integers for integer columns, quoted texts for
string columns. -/
def LiteralFor (columns : List Column) (column : Column) : AtomValue → Prop
  | .int _ => column.ctype = .int64
  | .str text => column.ctype = .string ∧ PlainLiteral columns text
  | _ => False

/-- Only equality with any text, and `<=` with the empty text, are the
equality test the string branch emits. -/
theorem equality_iff_holds
    (operator : CmpOp)
    (text : Text) :
    (∀ content : Text, decide (content = text) = operator.holds content text) ↔
      operator = .eq ∨ operator = .le ∧ text = [] := by
  constructor
  · intro agree
    have atText := agree text
    have atEmpty := agree []
    have atLonger := agree (text ++ ['a'])
    have above : text ++ [] < text ++ ['a'] := List.append_left_lt (List.nil_lt_cons 'a' [])
    have below : ¬text ++ ['a'] < text := List.lt_asymm (by simpa using above)
    cases operator with
    | eq => exact .inl rfl
    | le =>
        right
        refine ⟨rfl, ?_⟩
        simpa [CmpOp.holds, eq_comm] using atEmpty
    | ge => simp [CmpOp.holds, below] at atLonger
    | lt => simp [CmpOp.holds, List.lt_irrefl] at atText
    | gt => simp [CmpOp.holds, List.lt_irrefl] at atText
    | ne => simp [CmpOp.holds] at atText
    | diamond => simp [CmpOp.holds] at atText
  · rintro (rfl | ⟨rfl, rfl⟩) content
    · rfl
    · cases content with
      | nil => rfl
      | cons first rest => simp [CmpOp.holds]

/-- On every row whose column has the type, the emitted guard evaluates to
what the atom says and changes nothing. -/
def Atom.Survives
    (atom : Atom)
    (type : CppType)
    (groupingAttr : List Text)
    (columns : List Column) : Prop :=
  ∀ (env : Env) (row : Row) (vectors : Nat → List Record), env.rows .it = some row →
    Stored type (row atom.column) →
      atom.test env groupingAttr columns vectors =
        some (literalHolds atom.operator atom.value (row atom.column), vectors)

section Survives

variable {columns : List Column} {groupingAttr : List Text} {atom : Atom}

/-- A row with one given field. -/
def rowWith (column : Text) (content : Value) : Row := calloc.set column content

/-- An environment in which `it` points at the row. -/
def envAt (row : Row) : Env := ⟨[], rowsOf (some row) none, none⟩

theorem Atom.Survives.noAverage
    (named : NamedColumns columns)
    (wellFormed : atom.WellFormed columns)
    {type : CppType}
    (survives : atom.Survives type groupingAttr columns)
    {content : Value}
    (stored : Stored type content) :
    contains atom.column "avg" = false := by
  have typed : Stored type (rowWith atom.column content atom.column) := by
    simpa [rowWith] using stored
  have here := survives (envAt (rowWith atom.column content)) _ (fun _ => []) rfl typed
  rw [Bool.eq_false_iff]
  intro average
  rw [Atom.test_average named wellFormed average rfl typed] at here
  cases here

/-- Comparisons with integer literals keep their operator. -/
theorem survives_int_iff
    (named : NamedColumns columns)
    {group : Nat}
    {column : Text}
    {operator : CmpOp}
    {value : Int}
    (wellFormed : (Atom.mk group column operator (.int value)).WellFormed columns) :
    (Atom.mk group column operator (.int value)).Survives .int64 groupingAttr columns ↔
      contains column "avg" = false ∧ value.natAbs < 2 ^ 63 := by
  constructor
  · intro survives
    have zero : Stored .int64 (.int 0) := by simp [Stored]
    have noAverage := survives.noAverage named wellFormed zero
    refine ⟨noAverage, ?_⟩
    by_contra large
    have here := survives (envAt (rowWith column (.int 0))) _ (fun _ => []) rfl
      (by simpa [rowWith] using zero)
    rw [Atom.test_int named wellFormed noAverage rfl (Record.set_self ..), if_neg large] at here
    cases here
  · rintro ⟨noAverage, fits⟩ env row vectors bound stored
    cases shape : row column with
    | int content =>
        rw [Atom.test_int named wellFormed noAverage bound shape, if_pos fits]
        rfl
    | _ => simp [shape, Stored] at stored

/-- Comparisons with string literals become equality tests. -/
theorem survives_str_iff
    (named : NamedColumns columns)
    {group : Nat}
    {column : Text}
    {operator : CmpOp}
    {text : Text}
    (wellFormed : (Atom.mk group column operator (.str text)).WellFormed columns) :
    (Atom.mk group column operator (.str text)).Survives .string groupingAttr columns ↔
      contains column "avg" = false ∧ (operator = .eq ∨ operator = .le ∧ text = []) := by
  constructor
  · intro survives
    have stored (content : Text) : Stored .string (.str content) := trivial
    have noAverage := survives.noAverage named wellFormed (stored [])
    refine ⟨noAverage, (equality_iff_holds operator text).mp fun content => ?_⟩
    have here := survives (envAt (rowWith column (.str content))) _ (fun _ => []) rfl
      (by simpa [rowWith] using stored content)
    rw [Atom.test_str named wellFormed noAverage rfl (Record.set_self ..)] at here
    simpa [rowWith, literalHolds] using here
  · rintro ⟨noAverage, equality⟩ env row vectors bound stored
    cases shape : row column with
    | str content =>
        have equal := (equality_iff_holds operator text).mpr equality content
        rw [Atom.test_str named wellFormed noAverage bound shape, equal]
        rfl
    | _ => simp [shape, Stored] at stored

end Survives

/-- Literals with which the operator survives: integers of the C++ literal
range; strings under `=`, and the empty string under `<=`. -/
def OperatorKept (operator : CmpOp) : AtomValue → Prop
  | .int value => value.natAbs < 2 ^ 63
  | .str text => operator = .eq ∨ operator = .le ∧ text = []
  | _ => False

/-- The columns of the running example. -/
def saleColumns : List Column := [⟨"cust", .varchar⟩, ⟨"quant", .int⟩]

theorem namedColumns_saleColumns : NamedColumns saleColumns := by
  simp only [NamedColumns, saleColumns, List.forall_mem_cons, List.not_mem_nil, false_implies,
    implies_true, and_true]
  decide

end MfQuery
