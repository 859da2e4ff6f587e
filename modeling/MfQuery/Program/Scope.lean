import MfQuery.Having.Translation
import MfQuery.Names
import MfQuery.Program.Connectives
import MfQuery.Program.Updates

/-!
# Scopes of the emitted program

The emitted functions access the fields of three kinds of structures through
pointers: rows of the table, rows of the result and records of a group. Which
fields a structure declares is decided by one generator and which are accessed
by others. This module says what an access refers to: for the statements of
the passes, for the expressions in their guards and in the HAVING condition,
and for the helper functions and the printer.
-/

namespace MfQuery

open Text

/-- The emitted structures `sales`, `mf_structure` and `group<k>`. -/
inductive Struct
  | sales
  | result
  | group (k : Int)
  deriving DecidableEq, Repr

/-- The structures the row variables in scope point at. -/
abbrev Rows := Iter → Option Struct

/-! ## Expressions -/

/-- The structure a row variable points at, by its name. -/
def Rows.named (rows : Rows) (name : Text) : Option Struct :=
  if name = Iter.it.name then rows .it
  else if name = Iter.xt.name then rows .xt
  else none

/-- The structure an expression points at: a row variable, or a record of a
group vector. -/
def Cpp.Expr.pointsTo (rows : Rows) : Cpp.Expr → Option Struct
  | .unary .deref (.var name) => rows.named name
  | .call (.supply (.arrow (.var vector) method) _) =>
      if method = "at".toList then (numberBehind "data" vector).map fun (k : Nat) => .group k
      else none
  | _ => none

/-- Every row variable in the expression is bound, and every field accessed
through a pointer to a structure is declared there. -/
def Cpp.Expr.Scoped (declared : Struct → List Text) (rows : Rows) : Cpp.Expr → Prop
  | .number _ | .string _ => True
  | .var name => ∀ iter : Iter, name = iter.name → (rows iter).isSome = true
  | .unary _ operand => operand.Scoped declared rows
  | .binary _ left right => left.Scoped declared rows ∧ right.Scoped declared rows
  | .arrow base field =>
      base.Scoped declared rows ∧ ∀ struct ∈ base.pointsTo rows, field ∈ declared struct
  | .dot base _ => base.Scoped declared rows
  | .supply callee argument => callee.Scoped declared rows ∧ argument.Scoped declared rows
  | .call callee => callee.Scoped declared rows

/-- The condition spells an expression that is well scoped. -/
def CondScoped (declared : Struct → List Text) (rows : Rows) (cond : Text) : Prop :=
  ∃ expr, Cpp.read cond = some expr ∧ expr.Scoped declared rows

/-! ## Statements -/

/-- The row variable is bound to a structure that declares the field. -/
def Rows.Reads (declared : Struct → List Text) (rows : Rows) (iter : Iter) (field : Text) : Prop :=
  ∃ struct, rows iter = some struct ∧ field ∈ declared struct

/-- The updates that read the column of the aggregate from the row. -/
def Update.readsRow : Update → Bool
  | avg | sum | min | max => true
  | count | none => false

/-- The accesses of a statement are well scoped. A loop over `data` or `uniques`
binds its variable to rows of the table. -/
def Stmt.Scoped (declared : Struct → List Text) : Rows → Stmt → Prop
  | _, .skip | _, .declareUniques | _, .declareGroup _ | _, .callocEntry | _, .pushEntry
  | _, .callocGroupEntry _ | _, .pushGroupEntry _ | _, .declarePos => True
  | rows, .seq first second => first.Scoped declared rows ∧ second.Scoped declared rows
  | rows, .copyEntry column => column ∈ declared .result ∧ rows.Reads declared .it column
  | rows, .copyGroupEntry k column =>
      column ∈ declared (.group k) ∧ rows.Reads declared .it column
  | rows, .findPos _ attributes => ∀ attr ∈ attributes, rows.Reads declared .it attr
  | rows, .offsetPos => (rows .it).isSome = true
  | rows, .update aggregate source =>
      aggregate.update ≠ .none → aggregate.toVar ∈ declared (.group aggregate.group) ∧
        (aggregate.update.readsRow = true → rows.Reads declared source aggregate.column)
  | rows, .guarded _ cond body => CondScoped declared rows cond ∧ body.Scoped declared rows
  | rows, .loop kind body => body.Scoped declared (Function.update rows kind.iter (some .sales))

/-- The accesses of the last pass are well scoped: its loop runs over the result
rows. -/
structure FillPass.Scoped (declared : Struct → List Text) (fill : FillPass) : Prop where
  keys : ∀ attr ∈ fill.groupingAttr, attr ∈ declared .result
  having : CondScoped declared (Function.update (fun _ => none) .it (some .result)) fill.having
  copies : ∀ aggregate ∈ fill.selectAggregates, aggregate.toABSVar ∈ declared .result ∧
    aggregate.toVar ∈ declared (.group aggregate.group)

/-! ## Emitted programs -/

/-- What the texts of a compiled query are printed from. -/
structure Emission where
  generator : ScanGenerator
  mfFields : List Field
  cols : List Ct
  printed : List Text
  program : Program

/-- The names the emitted structures declare. -/
def Emission.declared (query : Query) (emission : Emission) : Struct → List Text
  | .sales => (salesFields query.columns).map Field.name
  | .result => emission.mfFields.map Field.name
  | .group k =>
      if 0 ≤ k ∧ k ≤ query.noGroupingVars then
        (groupFields k.toNat query.columns emission.generator.selectColumns
          emission.generator.allAggregates).map Field.name
      else []

/-- The header and the functions of a compiled query are printed from these
parts. -/
structure Query.EmitsParts (query : Query) (out : Text × Text) (emission : Emission) : Prop where
  built : query.scanGenerator = some emission.generator
  fields_eq : mfFields query.selectAttribute query.columns = some emission.mfFields
  cols_eq : getCt query.groupingAttr query.columns = some emission.cols
  printed_eq : query.selectAttribute.mapM printedField = some emission.printed
  program_eq : emission.generator.program = some emission.program
  header : out.1 =
    "struct mf_structure \x7b\n" ++ emission.mfFields.flatMap Field.text ++ "\x7d;\n" ++
      "struct sales\x7b\n" ++ (salesFields query.columns).flatMap Field.text ++ "\x7d;\n" ++
      createGroupingVarStructs query.noGroupingVars query.columns emission.generator.selectColumns
        emission.generator.allAggregates
  functions : ∃ printer, createOutputPrinter query.selectAttribute = some printer ∧
    out.2 = (List.range (query.noGroupingVars + 1)).flatMap (fun i => vfindText i emission.cols) ++
      isUniqueText emission.cols ++ getUniquesText ++ printer ++ emission.program.render

/-- Every access of the emitted functions is well scoped. -/
structure Emission.Scoped (query : Query) (emission : Emission) : Prop where
  lookups : ∀ k ≤ query.noGroupingVars, ∀ col ∈ emission.cols,
    col.name ∈ emission.declared query (.group k)
  uniques : ∀ col ∈ emission.cols, col.name ∈ emission.declared query .sales
  prelim : emission.program.prelim.Scoped (emission.declared query) fun _ => none
  scans : ∀ scan ∈ emission.program.scans, scan.Scoped (emission.declared query) fun _ => none
  fill : emission.program.fill.Scoped (emission.declared query)
  printer : ∀ field ∈ emission.printed, field ∈ emission.declared query .result

/-- The compiled query is a well-scoped program. -/
def Query.WellScoped (query : Query) (out : Text × Text) : Prop :=
  ∃ emission, query.EmitsParts out emission ∧ emission.Scoped query

theorem Query.exists_emission
    {query : Query}
    {out : Text × Text}
    (emitted : query.compile = some out) :
    ∃ emission, query.EmitsParts out emission := by
  simp only [Query.compile, Option.bind_eq_bind, Option.pure_def, Option.bind_eq_some_iff,
    Option.some.injEq] at emitted
  obtain ⟨generator, built, structures, structured, helpers, helped, printer, prints, body,
    generated, rfl⟩ := emitted
  rw [ScanGenerator.generate_eq_render] at generated
  obtain ⟨program, isProgram, rfl⟩ := Option.map_eq_some_iff.mp generated
  obtain ⟨fields, declared, rfl⟩ := Option.map_eq_some_iff.mp structured
  simp only [getHelpers, Option.bind_eq_bind, Option.bind_eq_some_iff,
    Option.ite_none_right_eq_some, Option.some.injEq] at helped
  obtain ⟨cols, typed, -, rfl⟩ := helped
  obtain ⟨printed, isPrinted, -⟩ := Option.map_eq_some_iff.mp prints
  exact ⟨⟨generator, fields, cols, printed, program⟩, built, declared, typed, isPrinted, isProgram,
    rfl, printer, prints, rfl⟩

/-! ## Accesses of expressions -/

section Expressions

variable {declared : Struct → List Text} {rows : Rows}

theorem Rows.named_name
    (rows : Rows)
    (iter : Iter) :
    rows.named iter.name = rows iter := by
  cases iter <;> rfl

theorem Iter.name_injective : Function.Injective Iter.name := by
  intro first second same
  cases first <;> cases second <;> first | rfl | exact absurd same (by decide)

theorem Cpp.Expr.scoped_binary
    (operator : Cpp.BinOp)
    (left right : Cpp.Expr) :
    (Cpp.Expr.binary operator left right).Scoped declared rows ↔
      left.Scoped declared rows ∧ right.Scoped declared rows := Iff.rfl

/-- Names longer than those of the row variables. -/
theorem Cpp.Expr.scoped_var
    {name : Text}
    (long : 2 < name.length) :
    (Cpp.Expr.var name).Scoped declared rows := by
  rintro iter rfl
  cases iter <;> exact absurd long (by decide)

theorem scoped_member_iff
    (iter : Iter)
    (column : Text) :
    (Cpp.Parser.memberExpr iter.name column).Scoped declared rows ↔
      rows.Reads declared iter column := by
  constructor
  · rintro ⟨bound, inside⟩
    obtain ⟨struct, isStruct⟩ := Option.isSome_iff_exists.mp (bound iter rfl)
    refine ⟨struct, isStruct, inside struct ?_⟩
    rw [Cpp.Expr.pointsTo, rows.named_name, isStruct]
    rfl
  · rintro ⟨struct, isStruct, inside⟩
    constructor
    · intro other same
      rw [← Iter.name_injective same, isStruct]
      rfl
    · intro other isOther
      rw [Cpp.Expr.pointsTo, rows.named_name, isStruct] at isOther
      cases isOther
      exact inside

theorem scoped_operand_iff (column : Text) :
    (operandExpr column).Scoped declared rows ↔ rows.Reads declared .it column := by
  unfold operandExpr
  split_ifs
  · exact scoped_member_iff .it column
  · exact scoped_member_iff .it column

theorem scoped_integer (value : Int) : (integerExpr value).Scoped declared rows := by
  unfold integerExpr
  split_ifs <;> exact trivial

theorem scoped_lookup_iff
    (k : Nat)
    (groupingAttr : List Text) :
    (lookupExpr k groupingAttr).Scoped declared rows ↔
      ∀ attr ∈ groupingAttr, rows.Reads declared .it attr := by
  have arguments (attributes : List Text) (callee : Cpp.Expr) :
      (attributes.foldl
          (fun function attr => .supply function (Cpp.Parser.memberExpr Iter.it.name attr))
          callee).Scoped declared rows ↔
        callee.Scoped declared rows ∧ ∀ attr ∈ attributes, rows.Reads declared .it attr := by
    induction attributes generalizing callee with
    | nil => simp
    | cons attr attributes inductionHypothesis =>
        rw [List.foldl_cons, inductionHypothesis, List.forall_mem_cons, Cpp.Expr.Scoped,
          scoped_member_iff, and_assoc]
  have function : (Cpp.Expr.supply (.var (vfindName k)) (.var (dataName k))).Scoped declared rows :=
    ⟨Cpp.Expr.scoped_var (by simp [vfindName]), Cpp.Expr.scoped_var (by simp [dataName])⟩
  rw [lookupExpr, Cpp.Expr.Scoped, arguments]
  exact and_iff_right function

/-- A field of a record of a group vector. -/
theorem scoped_element_iff
    (k : Nat)
    (index : Cpp.Expr)
    (field : Text) :
    (Cpp.Expr.arrow (.call (.supply (.arrow (.var (dataName k)) "at") index)) field).Scoped
        declared rows ↔
      index.Scoped declared rows ∧ field ∈ declared (.group k) := by
  have vector : (Cpp.Expr.var (dataName k)).Scoped declared rows :=
    Cpp.Expr.scoped_var (by simp [dataName])
  have number : numberBehind "data" (dataName k) = some k := numberBehind_append _ k
  have record : (Cpp.Expr.call (.supply (.arrow (.var (dataName k)) "at") index)).pointsTo rows =
      some (.group k) := by
    rw [Cpp.Expr.pointsTo, if_pos rfl, number]
    rfl
  constructor
  · rintro ⟨⟨-, isIndex⟩, inside⟩
    exact ⟨isIndex, inside _ record⟩
  · rintro ⟨isIndex, inside⟩
    refine ⟨⟨⟨vector, by rintro struct ⟨⟩⟩, isIndex⟩, ?_⟩
    intro struct isStruct
    rw [record] at isStruct
    cases isStruct
    exact inside

/-- The part of an atom's value that is read from the other row variable. -/
def AtomValue.other : AtomValue → Option Text
  | int _ | str _ => none
  | attr name | shifted name _ _ => some name

theorem Atom.scoped_expr_iff (atom : Atom) :
    atom.expr.Scoped declared rows ↔ rows.Reads declared .it atom.column ∧
      ∀ name ∈ atom.value.other, rows.Reads declared .xt name := by
  have number (digits : Text) : (Cpp.Expr.number digits).Scoped declared rows := trivial
  have string (text : Text) : (Cpp.Expr.string text).Scoped declared rows := trivial
  obtain ⟨group, column, operator, value⟩ := atom
  cases value with
  | int value =>
      have integer : (integerExpr value).Scoped declared rows := scoped_integer value
      rw [Atom.expr, Cpp.Expr.scoped_binary, scoped_operand_iff]
      simp [AtomValue.other, integer]
  | str text =>
      have called : (Cpp.Expr.call (.supply (.dot (operandExpr column) "compare")
          (.string text))).Scoped declared rows ↔ (operandExpr column).Scoped declared rows :=
        and_iff_left (string text)
      rw [Atom.expr, Cpp.Expr.scoped_binary, called, scoped_operand_iff]
      simp [AtomValue.other, number]
  | attr name =>
      rw [Atom.expr, Cpp.Expr.scoped_binary, scoped_operand_iff, scoped_member_iff]
      simp [AtomValue.other]
  | shifted name sign constant =>
      rw [Atom.expr, Cpp.Expr.scoped_binary, Cpp.Expr.scoped_binary, scoped_operand_iff,
        scoped_member_iff]
      simp [AtomValue.other, number]

theorem AggregateAtom.scoped_expr_iff
    (atom : AggregateAtom)
    (groupingAttr : List Text) :
    (atom.expr groupingAttr).Scoped declared rows ↔
      rows.Reads declared .it atom.column ∧
        (∀ attr ∈ groupingAttr, rows.Reads declared .it attr) ∧
        atom.aggregate.toVar ∈ declared (.group atom.scanned) := by
  have value : (atom.valueExpr groupingAttr).Scoped declared rows ↔
      (∀ attr ∈ groupingAttr, rows.Reads declared .it attr) ∧
        atom.aggregate.toVar ∈ declared (.group atom.scanned) := by
    rw [← scoped_lookup_iff atom.scanned, ← scoped_element_iff]
    unfold AggregateAtom.valueExpr
    split_ifs <;> rfl
  have number : (Cpp.Expr.number (numeral 0)).Scoped declared rows := trivial
  rw [AggregateAtom.expr, Cpp.Expr.scoped_binary, Cpp.Expr.scoped_binary, Cpp.Expr.scoped_binary,
    value, scoped_operand_iff, scoped_lookup_iff]
  tauto

theorem HavingLeaf.scoped_expr
    {leaf : HavingLeaf}
    (places : ∀ letterCase term, leaf = .aggregate letterCase term →
      (term.aggregate letterCase).toVar ∈ declared (.group term.group)) :
    leaf.expr.Scoped declared rows := by
  cases leaf with
  | constant value => exact scoped_integer value
  | aggregate letterCase term =>
      have position : (Cpp.Expr.var "pos").Scoped declared rows :=
        Cpp.Expr.scoped_var (by decide)
      have place := (scoped_element_iff term.group (.var "pos") _).mpr
        ⟨position, places letterCase term rfl⟩
      simp only [HavingLeaf.expr]
      split_ifs
      · exact place
      · exact place

end Expressions

/-! ## Accesses of the passes -/

section Passes

variable {declared : Struct → List Text} {rows : Rows}

theorem Stmt.scoped_block_iff (statements : List Stmt) :
    (Stmt.block statements).Scoped declared rows ↔
      ∀ statement ∈ statements, statement.Scoped declared rows := by
  induction statements with
  | nil => simp [Stmt.block, Stmt.Scoped]
  | cons statement rest inductionHypothesis =>
      rw [Stmt.block, Stmt.Scoped, inductionHypothesis, List.forall_mem_cons]

/-- The rows in scope in a loop over the table or over the distinct keys. -/
def Loop.scope (kind : Loop) : Rows := Function.update (fun _ => none) kind.iter (some .sales)

theorem Rows.reads_sales_iff
    {iter : Iter}
    {field : Text}
    (bound : rows iter = some .sales) :
    rows.Reads declared iter field ↔ field ∈ declared .sales := by
  simp [Rows.Reads, bound]

namespace ScanGenerator

variable (generator : ScanGenerator)

theorem scoped_groupEntryStmt_iff (k : Nat) :
    (generator.groupEntryStmt k).Scoped declared Loop.prelim.scope ↔
      ∀ column ∈ generator.selectColumns, column ∈ declared (.group k) ∧
        column ∈ declared .sales := by
  have reads (column : Text) : Rows.Reads declared Loop.prelim.scope .it column ↔
      column ∈ declared .sales := Rows.reads_sales_iff rfl
  rw [groupEntryStmt, Stmt.scoped_block_iff]
  simp only [List.forall_mem_append, List.forall_mem_singleton, List.forall_mem_map, Stmt.Scoped,
    reads, true_and, and_true]

/-- The first pass copies the selected columns of the table. -/
theorem scoped_prelimStmt_iff :
    generator.prelimStmt.Scoped declared (fun _ => none) ↔
      (∀ column ∈ generator.selectColumns, column ∈ declared .result ∧ column ∈ declared .sales) ∧
        ∀ k ≤ generator.noGroupingVars, ∀ column ∈ generator.selectColumns,
          column ∈ declared (.group k) ∧ column ∈ declared .sales := by
  have reads (column : Text) : Rows.Reads declared Loop.prelim.scope .it column ↔
      column ∈ declared .sales := Rows.reads_sales_iff rfl
  have body : generator.prelimBody.Scoped declared Loop.prelim.scope ↔
      (∀ column ∈ generator.selectColumns, column ∈ declared .result ∧ column ∈ declared .sales) ∧
        ∀ k ≤ generator.noGroupingVars, ∀ column ∈ generator.selectColumns,
          column ∈ declared (.group k) ∧ column ∈ declared .sales := by
    rw [prelimBody, Stmt.scoped_block_iff]
    simp only [List.forall_mem_append, List.forall_mem_singleton, List.forall_mem_map, Stmt.Scoped,
      reads, true_and, and_true, List.mem_range, Nat.lt_succ_iff, scoped_groupEntryStmt_iff]
  rw [← body, prelimStmt, Stmt.scoped_block_iff]
  simp only [List.forall_mem_append, List.forall_mem_singleton, List.forall_mem_map, Stmt.Scoped,
    implies_true, true_and]
  rfl

/-- The aggregates of a scan are declared in their groups and read columns that
the rows have. -/
def BucketScoped (declared : Struct → List Text) (bucket : List Aggregate) : Prop :=
  ∀ aggregate ∈ bucket, aggregate.update ≠ .none →
    aggregate.toVar ∈ declared (.group aggregate.group) ∧
      (aggregate.update.readsRow = true → aggregate.column ∈ declared .sales)

/-- The rows in scope in the guards of the scans. -/
def guardRows (generator : ScanGenerator) : Rows :=
  if generator.emf then fun _ => some .sales else Loop.scan.scope

/-- A scan of either mode. -/
theorem scoped_modeScanStmt_iff
    (i : Nat)
    (bucket : List Aggregate)
    (cond : Text) :
    (generator.modeScanStmt i bucket cond).Scoped declared (fun _ => none) ↔
      CondScoped declared generator.guardRows cond ∧
        (generator.emf = false → ∀ attr ∈ generator.groupingAttr, attr ∈ declared .sales) ∧
        BucketScoped declared bucket := by
  unfold modeScanStmt guardRows
  cases generator.emf with
  | true =>
      have both : Function.update Loop.emfOuter.scope Loop.emfInner.iter (some .sales) =
          fun _ => some Struct.sales := by
        funext iter
        cases iter <;> rfl
      have reads (column : Text) : Rows.Reads declared (fun _ => some .sales) .xt column ↔
          column ∈ declared .sales := Rows.reads_sales_iff rfl
      have inside : (emfScanStmt i bucket cond).Scoped declared (fun _ => none) ↔
          (Stmt.guarded i cond (.seq .offsetPos
            (.block (bucket.map fun aggregate => .update aggregate .xt)))).Scoped declared
              (fun _ => some .sales) := by
        rw [← both]
        rfl
      rw [if_pos rfl, if_pos rfl, inside]
      simp only [Stmt.Scoped, Stmt.scoped_block_iff, List.forall_mem_map, reads, BucketScoped,
        Option.isSome_some, true_and, Bool.true_eq_false, false_implies]
  | false =>
      have reads (column : Text) : Rows.Reads declared Loop.scan.scope .it column ↔
          column ∈ declared .sales := Rows.reads_sales_iff rfl
      have inside : (generator.scanStmt i bucket cond).Scoped declared (fun _ => none) ↔
          (Stmt.guarded i cond (.seq (.findPos i generator.groupingAttr)
            (.block (bucket.map fun aggregate => .update aggregate .it)))).Scoped declared
              Loop.scan.scope := iff_of_eq (true_and _)
      rw [if_neg Bool.false_ne_true, if_neg Bool.false_ne_true, inside]
      simp only [Stmt.Scoped, Stmt.scoped_block_iff, List.forall_mem_map, reads, BucketScoped,
        true_implies]

end ScanGenerator

end Passes

end MfQuery
