import MfQuery.Program.Scope

/-!
# Well-scoped programs

The structures are declared from the select list, the F-vector and the columns
of the table; the functions access fields named by the grouping attributes, the
F-vector and the lines. An emitted program is well scoped when the grouping
attributes are selected, the aggregates read columns of the table, the string
literals of the lines are kept, and outside EMF mode no line compares two
columns.
-/

namespace MfQuery

open Text

/-! ## Declared names -/

section Declared

variable {query : Query} {out : Text × Text} {emission : Emission} {name : Text}

/-- Table rows have the columns of the table. -/
theorem Emission.mem_declared_sales :
    name ∈ emission.declared query .sales ↔ ∃ column ∈ query.columns, column.name = name := by
  simp [Emission.declared, salesFields]

namespace Query.EmitsParts

variable (parts : query.EmitsParts out emission)
include parts

theorem builtFrom : emission.generator.BuiltFrom query := Query.builtFrom parts.built

theorem compiled : emission.generator.Compiled emission.program :=
  ScanGenerator.compiled_of_program parts.program_eq

/-- Result rows have the plain columns and the aggregates of the select
list. -/
theorem mem_declared_result :
    name ∈ emission.declared query .result ↔
      name ∈ getSelectColumns query.selectAttribute ∨
        ∃ aggregate ∈ emission.generator.selectAggregates, aggregate.toABSVar = name := by
  have selected := parts.builtFrom.selectAggregates_eq
  rw [Emission.declared, (mfFields_names_perm parts.fields_eq selected).mem_iff, List.mem_append,
    List.mem_map]

/-- Records of a group have the plain columns of the select list and the
aggregates of the group. -/
theorem mem_declared_group
    {k : Int}
    (nonnegative : 0 ≤ k)
    (inRange : k ≤ query.noGroupingVars) :
    name ∈ emission.declared query (.group k) ↔
      name ∈ getSelectColumns query.selectAttribute ∨
        ∃ aggregate ∈ emission.generator.allAggregates, aggregate.group = k ∧
          aggregate.toVar = name := by
  have number : ((k.toNat : Nat) : Int) = k := Int.toNat_of_nonneg nonnegative
  rw [Emission.declared, if_pos ⟨nonnegative, inRange⟩, groupFields_names, List.mem_append,
    List.mem_map, number, parts.builtFrom.selectColumns_eq]
  simp only [List.mem_filter, decide_eq_true_eq, and_assoc]

/-- What the printer reads is declared. -/
theorem printed_declared
    {field : Text}
    (printed : field ∈ emission.printed) :
    field ∈ emission.declared query .result := by
  obtain ⟨entry, selected, isPrinted⟩ := exists_entry_of_mem parts.printed_eq printed
  obtain ⟨declared, isDeclared, isField⟩ := exists_result_of_mem parts.fields_eq selected
  have same : declared.name = field := by
    unfold mfField at isField
    unfold printedField at isPrinted
    split_ifs at isField isPrinted with isAggregate
    · obtain ⟨aggregate, read, rfl⟩ := Option.map_eq_some_iff.mp isField
      rw [read, Option.map_some, Option.some.injEq] at isPrinted
      exact isPrinted
    · cases isField
      exact Option.some.inj isPrinted
  rw [← same]
  exact List.mem_map_of_mem isDeclared

/-- The parameters of the lookups are the grouping attributes. -/
theorem forall_cols_iff (holds : Text → Prop) :
    (∀ col ∈ emission.cols, holds col.name) ↔ ∀ attr ∈ query.groupingAttr, holds attr := by
  rw [← map_name_getCt parts.cols_eq, List.forall_mem_map]

end Query.EmitsParts

end Declared

/-! ## Lines -/

/-- A such-that line: atoms with connectives between them. -/
structure AtomLine where
  first : LineAtom
  rest : List (Connective × LineAtom)
  deriving DecidableEq, Repr

namespace AtomLine

/-- The line as written. -/
def text (line : AtomLine) : Text := joinWith ' ' (linePieces LineAtom.text line.first line.rest)

/-- Its atoms. -/
def atoms (line : AtomLine) : List LineAtom := line.first :: line.rest.map Prod.snd

end AtomLine

/-- String literals that stay one literal in the guard; all other values do. -/
def AtomValue.Kept (columns : List Column) : AtomValue → Prop
  | str text => PlainLiteral columns text ∧ ' ' ∉ text
  | _ => True

namespace LineAtom

/-- The compared column is one of the table, and so is a column it is compared
with; an aggregate it is compared with is one of the F-vector. -/
def Valid (columns : List Column) (all : List Aggregate) : LineAtom → Prop
  | plain atom => atom.group < 2 ^ 31 ∧ (∃ column ∈ columns, column.name = atom.column) ∧
      ∀ name ∈ atom.value.other, ∃ column ∈ columns, column.name = name
  | aggregate atom => atom.WellFormed columns ∧ atom.aggregate ∈ all

/-- The literal of the atom is kept. -/
def Kept (columns : List Column) : LineAtom → Prop
  | plain atom => atom.value.Kept columns
  | aggregate _ => True

/-- The column of the other row that the atom reads. -/
def other : LineAtom → Option Text
  | plain atom => atom.value.other
  | aggregate _ => none

theorem Valid.wellFormed
    {columns : List Column}
    {all : List Aggregate}
    {atom : LineAtom}
    (plainNames : ∀ column ∈ columns, '_' ∉ column.name)
    (valid : atom.Valid columns all)
    (kept : atom.Kept columns) :
    atom.WellFormed columns := by
  cases atom with
  | aggregate atom => exact valid.1
  | plain atom =>
      obtain ⟨group, column, operator, value⟩ := atom
      obtain ⟨small, inTable, others⟩ := valid
      cases value with
      | int value => exact ⟨⟨small, inTable, trivial⟩, trivial⟩
      | str text => exact ⟨⟨small, inTable, kept.1⟩, kept.2⟩
      | attr name => exact ⟨⟨small, inTable, others name rfl⟩, trivial⟩
      | shifted name sign constant =>
          obtain ⟨other, member, isName⟩ := others name rfl
          have noUnderscore : '_' ∉ name := isName ▸ plainNames other member
          exact ⟨⟨small, inTable, ⟨other, member, isName⟩, noUnderscore⟩, trivial⟩

end LineAtom

/-- The literals of the line are kept. -/
def AtomLine.Kept (columns : List Column) (line : AtomLine) : Prop :=
  ∀ atom ∈ line.atoms, atom.Kept columns

/-- Outside EMF mode there is one row variable. -/
def AtomLine.BindsRows (emf : Bool) (line : AtomLine) : Prop :=
  emf = false → ∀ atom ∈ line.atoms, atom.other = none

/-- The guard of a line is read as its atoms' comparisons. -/
theorem AtomLine.exists_guard
    {columns : List Column}
    {groupingAttr : List Text}
    {line : AtomLine}
    (named : NamedColumns columns)
    (namedAttr : ∀ attr ∈ groupingAttr, Cpp.isName attr = true)
    (wellFormed : ∀ atom ∈ line.atoms, atom.WellFormed columns) :
    ∃ conditions guard, Conditions.ofText line.text = some conditions ∧
      conditions.toCpp "(*it)" "(*xt)" groupingAttr columns = some guard ∧
      ∀ declared rows, CondScoped declared rows guard ↔
        ∀ atom ∈ line.atoms, (atom.expr groupingAttr).Scoped declared rows := by
  have parsed : Conditions.ofText line.text = _ :=
    Conditions.ofText_linePieces
      (fun atom member => atom.space_notMem_text named (wellFormed atom member))
      (fun atom _ => atom.dot_mem_text)
      (fun atom member => atom.ofText_text named (wellFormed atom member))
  obtain ⟨guard, translated, read⟩ := Conditions.read_toCpp
    fun atom member => LineAtom.toCpp_writes named (wellFormed atom member) namedAttr
  refine ⟨_, guard, parsed, translated, fun declared rows => ?_⟩
  have splits : ∀ operator left right,
      (Cpp.Expr.binary operator left right).Scoped declared rows ↔
        left.Scoped declared rows ∧ right.Scoped declared rows :=
    Cpp.Expr.scoped_binary
  have operands := Precedence.chain_holds_iff splits Cpp.BinOp.binds []
    (line.first.expr groupingAttr)
    (line.rest.map fun entry => (entry.1.operator, entry.2.expr groupingAttr))
  rw [CondScoped, read]
  simp only [Option.some.injEq, exists_eq_left', operands, List.not_mem_nil, false_implies,
    implies_true, true_and, List.forall_mem_map, atoms, List.forall_mem_cons]

/-! ## Valid queries -/

/-- The aggregates of a HAVING condition are those of the F-vector. -/
def HavingLeaf.Of (all : List Aggregate) : HavingLeaf → Prop
  | aggregate letterCase term => isIdent term.column = true ∧ '_' ∉ term.column ∧
      term.aggregate letterCase ∈ all
  | constant _ => True

/-- A valid query: its grouping attributes and plain select entries are columns
of the table, `all` are the aggregates of its F-vector, its groups exist, and
its other aggregates occur there; its such-that vector and its HAVING condition
are written from `lines` and `having`. -/
structure Query.ValidOver
    (query : Query)
    (all : List Aggregate)
    (lines : List AtomLine)
    (having : Option HavingFormula) : Prop where
  few : query.noGroupingVars < 2 ^ 31
  named : NamedColumns query.columns
  plain : ∀ column ∈ query.columns, '_' ∉ column.name
  keys : ∀ attr ∈ query.groupingAttr, ∃ column ∈ query.columns, column.name = attr
  selected : ∀ name ∈ getSelectColumns query.selectAttribute,
    ∃ column ∈ query.columns, column.name = name
  listed : getAllAggregates query.fVect = some all
  inRange : ∀ aggregate ∈ all, 0 ≤ aggregate.group ∧ aggregate.group ≤ query.noGroupingVars
  selectedAggregates : ∀ aggregates, getSelectAggregates query.selectAttribute = some aggregates →
    ∀ aggregate ∈ aggregates, aggregate ∈ all
  lines_eq : query.selectCondVect = lines.map AtomLine.text
  lines_valid : ∀ line ∈ lines, ∀ atom ∈ line.atoms, atom.Valid query.columns all
  having_eq : query.having = (having.map HavingFormula.text).getD []
  having_valid : ∀ formula ∈ having, formula.All (fun _ => True) (HavingLeaf.Of all)

/-- The grouping attributes are selected, and what the scans read from a row is
a column of the table. -/
structure Query.FieldsDeclared (query : Query) (all : List Aggregate) : Prop where
  keys : ∀ attr ∈ query.groupingAttr, attr ∈ getSelectColumns query.selectAttribute
  reads : ∀ aggregate ∈ all, aggregate.update.readsRow = true →
    ∃ column ∈ query.columns, column.name = aggregate.column

section Valid

variable {query : Query} {all : List Aggregate} {lines : List AtomLine}
  {having : Option HavingFormula} {out : Text × Text} {emission : Emission}
  (valid : query.ValidOver all lines having) (parts : query.EmitsParts out emission)

namespace Query.ValidOver

include valid

theorem isName_attr
    {attr : Text}
    (isKey : attr ∈ query.groupingAttr) :
    Cpp.isName attr = true := by
  obtain ⟨column, member, rfl⟩ := valid.keys attr isKey
  exact valid.named column member

include parts

theorem allAggregates_eq : emission.generator.allAggregates = all := by
  exact Option.some.inj (parts.builtFrom.allAggregates_eq.symm.trans valid.listed)

/-- An aggregate of the F-vector is declared in its group. -/
theorem toVar_declared
    {aggregate : Aggregate}
    (member : aggregate ∈ all) :
    aggregate.toVar ∈ emission.declared query (.group aggregate.group) := by
  obtain ⟨nonnegative, small⟩ := valid.inRange aggregate member
  rw [parts.mem_declared_group nonnegative small, valid.allAggregates_eq parts]
  exact .inr ⟨aggregate, member, rfl, rfl⟩

/-- In a group structure the columns of the table are the selected ones. -/
theorem column_declared_iff
    {attr : Text}
    (isKey : attr ∈ query.groupingAttr)
    {k : Nat}
    (inRange : k ≤ query.noGroupingVars) :
    attr ∈ emission.declared query (.group k) ↔ attr ∈ getSelectColumns query.selectAttribute := by
  rw [parts.mem_declared_group (Int.natCast_nonneg k) (by exact_mod_cast inRange)]
  refine ⟨?_, Or.inl⟩
  rintro (selected | ⟨aggregate, -, -, isName⟩)
  · exact selected
  · obtain ⟨column, member, name⟩ := valid.keys attr isKey
    have underscore : '_' ∈ column.name := by
      rw [name, ← isName]
      exact aggregate.underscore_mem_toVar
    exact absurd underscore (valid.plain column member)

/-- The aggregates of a scan are well scoped when they read columns of the
table. -/
theorem bucketScoped_iff (k : Nat) :
    ScanGenerator.BucketScoped (emission.declared query) (emission.generator.bucket k) ↔
      ∀ aggregate ∈ emission.generator.bucket k, aggregate.update.readsRow = true →
        ∃ column ∈ query.columns, column.name = aggregate.column := by
  constructor
  · intro isScoped aggregate member reads
    have known : aggregate.update ≠ .none := by
      intro unknown
      rw [unknown] at reads
      cases reads
    exact Emission.mem_declared_sales.mp ((isScoped aggregate member known).2 reads)
  · intro inTable aggregate member _
    have listed : aggregate ∈ all :=
      valid.allAggregates_eq parts ▸ (List.mem_filter.mp member).1
    exact ⟨valid.toVar_declared parts listed,
      fun reads => Emission.mem_declared_sales.mpr (inTable aggregate member reads)⟩

/-- An atom of a valid line is well scoped unless it reads a second row outside
EMF mode. -/
theorem scoped_atom_iff
    {atom : LineAtom}
    (atomValid : atom.Valid query.columns all) :
    (atom.expr query.groupingAttr).Scoped (emission.declared query)
        emission.generator.guardRows ↔ (query.emf = false → atom.other = none) := by
  have mode := parts.builtFrom.emf_eq
  have bound : emission.generator.guardRows .it = some .sales := by
    unfold ScanGenerator.guardRows
    split_ifs <;> rfl
  have reads {name : Text} (inTable : ∃ column ∈ query.columns, column.name = name) :
      emission.generator.guardRows.Reads (emission.declared query) .it name :=
    (Rows.reads_sales_iff bound).mpr (Emission.mem_declared_sales.mpr inTable)
  cases atom with
  | aggregate atom =>
      have place := valid.toVar_declared parts atomValid.2
      refine iff_of_true ?_ fun _ => rfl
      exact (atom.scoped_expr_iff _).mpr
        ⟨reads atomValid.1.column_mem, fun attr isKey => reads (valid.keys attr isKey), place⟩
  | plain atom =>
      obtain ⟨-, inTable, others⟩ := atomValid
      rw [LineAtom.expr, atom.scoped_expr_iff, and_iff_right (reads inTable), LineAtom.other]
      cases isEmf : query.emf with
      | true =>
          have second : emission.generator.guardRows .xt = some .sales := by
            rw [ScanGenerator.guardRows, mode, isEmf]
            rfl
          refine iff_of_true (fun name isOther => ?_) (by simp)
          exact (Rows.reads_sales_iff second).mpr
            (Emission.mem_declared_sales.mpr (others name isOther))
      | false =>
          have unbound : emission.generator.guardRows .xt = none := by
            rw [ScanGenerator.guardRows, mode, isEmf]
            rfl
          simp only [Rows.Reads, unbound, reduceCtorEq, false_and, exists_false, imp_false,
            true_implies]
          exact Option.eq_none_iff_forall_not_mem.symm

/-- The guard of a line whose literals are kept. -/
theorem scoped_guard_iff
    {i : Nat}
    {line : AtomLine}
    (found : lines[i]? = some line)
    (kept : line.Kept query.columns)
    {cond : Text}
    (isGuard : emission.generator.getSelectionCond (i + 1) = some cond) :
    CondScoped (emission.declared query) emission.generator.guardRows cond ↔
      line.BindsRows query.emf := by
  have atomsValid := valid.lines_valid line (List.mem_of_getElem? found)
  obtain ⟨conditions, guard, read, translated, scopes⟩ := AtomLine.exists_guard valid.named
    (fun attr isKey => valid.isName_attr isKey)
    fun atom member => (atomsValid atom member).wellFormed valid.plain (kept atom member)
  have written : query.selectCondVect[i]? = some line.text := by
    rw [valid.lines_eq, List.getElem?_map, found]
    rfl
  have same : guard = cond := by
    rw [query.getSelectionCond_eq_translation parts.built written, Query.translation, read,
      Option.bind_some, translated] at isGuard
    exact Option.some.inj isGuard
  rw [← same, scopes, AtomLine.BindsRows]
  have each : ∀ atom ∈ line.atoms,
      ((atom.expr query.groupingAttr).Scoped (emission.declared query)
        emission.generator.guardRows ↔ (query.emf = false → atom.other = none)) :=
    fun atom member => valid.scoped_atom_iff parts (atomsValid atom member)
  constructor
  · intro isScoped outside atom member
    exact (each atom member).mp (isScoped atom member) outside
  · intro binds atom member
    exact (each atom member).mpr fun outside => binds outside atom member

/-- The first pass copies plain select entries, which are columns of the
table. -/
theorem prelim_scoped :
    emission.program.prelim.Scoped (emission.declared query) fun _ => none := by
  have copied : ∀ column ∈ getSelectColumns query.selectAttribute,
      column ∈ emission.declared query .sales :=
    fun column member => Emission.mem_declared_sales.mpr (valid.selected column member)
  rw [parts.compiled.prelim_eq, ScanGenerator.scoped_prelimStmt_iff,
    parts.builtFrom.selectColumns_eq, parts.builtFrom.noGroupingVars_eq]
  constructor
  · intro column member
    exact ⟨parts.mem_declared_result.mpr (.inl member), copied column member⟩
  · intro k small column member
    refine ⟨?_, copied column member⟩
    rw [parts.mem_declared_group (Int.natCast_nonneg k) (by exact_mod_cast small)]
    exact .inl member

/-- The first scan is unguarded; the others are guarded by their lines. -/
theorem scans_scoped
    (fields : query.FieldsDeclared all)
    (each : ∀ line ∈ lines.take query.noGroupingVars,
      line.Kept query.columns ∧ line.BindsRows query.emf) :
    ∀ scan ∈ emission.program.scans,
      scan.Scoped (emission.declared query) fun _ => none := by
  intro scan member
  obtain ⟨i, found⟩ := List.mem_iff_getElem?.mp member
  obtain ⟨small, cond, isGuard, rfl⟩ := parts.compiled.scan found
  rw [parts.builtFrom.noGroupingVars_eq] at small
  rw [ScanGenerator.scoped_modeScanStmt_iff, parts.builtFrom.groupingAttr_eq,
    valid.bucketScoped_iff parts]
  refine ⟨?_, fun _ attr isKey => Emission.mem_declared_sales.mpr (valid.keys attr isKey), ?_⟩
  · cases i with
    | zero =>
        cases isGuard
        exact ⟨.var "true", rfl, Cpp.Expr.scoped_var (by decide)⟩
    | succ i =>
        obtain ⟨conditions, atIndex, -⟩ := Option.bind_eq_some_iff.mp isGuard
        have inside : i < lines.length := by
          have lengths := length_of_mapM parts.builtFrom.selectConditions_eq
          rw [valid.lines_eq, List.length_map] at lengths
          rw [← lengths]
          exact (List.getElem?_eq_some_iff.mp atIndex).1
        have atLine := List.getElem?_eq_getElem inside
        have taken : lines[i] ∈ lines.take query.noGroupingVars :=
          List.mem_of_getElem? ((List.getElem?_take_of_lt small).trans atLine)
        obtain ⟨kept, binds⟩ := each _ taken
        exact (valid.scoped_guard_iff parts atLine kept isGuard).mpr binds
  · intro aggregate inBucket reads
    have listed : aggregate ∈ all :=
      valid.allAggregates_eq parts ▸ (List.mem_filter.mp inBucket).1
    exact fields.reads aggregate listed reads

/-- The HAVING condition reads aggregates of the F-vector. -/
theorem having_scoped (rows : Rows) :
    CondScoped (emission.declared query) rows emission.program.fill.having := by
  have condition := parts.builtFrom.having_eq
  have parsed := parts.compiled.having_eq
  have isText := valid.having_eq
  cases isHaving : having with
  | none =>
      have text : emission.program.fill.having = "true".toList := by
        rw [ScanGenerator.parseHaving, condition, isText, isHaving] at parsed
        exact (Option.some.inj parsed).symm
      rw [text]
      exact ⟨.var "true", rfl, Cpp.Expr.scoped_var (by decide)⟩
  | some formula =>
      have ofAll := valid.having_valid formula isHaving
      have written : formula.Written := by
        refine Precedence.Formula.All.imp ?_ ofAll
        intro leaf leafOf
        cases leaf with
        | constant value => exact trivial
        | aggregate letterCase term =>
            have small := (valid.inRange _ leafOf.2.2).2
            have few := valid.few
            exact ⟨leafOf.1, leafOf.2.1, by simp only [AggregateTerm.aggregate] at small; omega⟩
      have text : emission.program.fill.having = formula.cpp := by
        rw [isHaving] at isText
        have translated := formula.parseHaving_eq valid.named written parts.builtFrom.columns_eq
          (condition.trans isText)
        exact Option.some.inj (parsed.symm.trans translated)
      refine ⟨formula.expr, text ▸ formula.read_cpp written, ?_⟩
      have leaves : ∀ leaf : HavingLeaf, leaf.Of all →
          leaf.expr.Scoped (emission.declared query) rows := by
        intro leaf leafOf
        apply HavingLeaf.scoped_expr
        rintro letterCase term rfl
        exact valid.toVar_declared parts leafOf.2.2
      refine Precedence.Formula.holds_fold leaves ?_ HavingOp.cppBinds ofAll
      intro operator left right _ leftScoped rightScoped
      exact (Cpp.Expr.scoped_binary operator.binOp left right).mpr ⟨leftScoped, rightScoped⟩

/-- The last pass reads result rows and copies selected aggregates. -/
theorem fill_scoped
    (fields : query.FieldsDeclared all) :
    emission.program.fill.Scoped (emission.declared query) := by
  constructor
  · rw [parts.compiled.attributes_eq, parts.builtFrom.groupingAttr_eq]
    exact fun attr isKey => parts.mem_declared_result.mpr (.inl (fields.keys attr isKey))
  · exact valid.having_scoped parts _
  · rw [parts.compiled.aggregates_eq]
    intro aggregate member
    have listed := valid.selectedAggregates _ parts.builtFrom.selectAggregates_eq aggregate member
    exact ⟨parts.mem_declared_result.mpr (.inr ⟨aggregate, member, rfl⟩),
      valid.toVar_declared parts listed⟩

/-- The conditions are enough. -/
theorem emission_scoped
    (fields : query.FieldsDeclared all)
    (each : ∀ line ∈ lines.take query.noGroupingVars,
      line.Kept query.columns ∧ line.BindsRows query.emf) :
    emission.Scoped query where
  lookups := by
    intro k small
    rw [parts.forall_cols_iff fun name => name ∈ emission.declared query (.group k)]
    intro attr isKey
    exact (valid.column_declared_iff parts isKey small).mpr (fields.keys attr isKey)
  uniques := by
    rw [parts.forall_cols_iff fun name => name ∈ emission.declared query .sales]
    exact fun attr isKey => Emission.mem_declared_sales.mpr (valid.keys attr isKey)
  prelim := valid.prelim_scoped parts
  scans := valid.scans_scoped parts fields each
  fill := valid.fill_scoped parts fields
  printer := fun _ => parts.printed_declared

/-- The lookups need the grouping attributes, and the scans of the F-vector the
columns of its aggregates. -/
theorem fieldsDeclared_of_scoped
    (isScoped : emission.Scoped query) :
    query.FieldsDeclared all := by
  constructor
  · have lookups := isScoped.lookups 0 (Nat.zero_le _)
    rw [parts.forall_cols_iff fun name => name ∈ emission.declared query (.group (0 : Nat))]
      at lookups
    intro attr isKey
    exact (valid.column_declared_iff parts isKey (Nat.zero_le _)).mp (lookups attr isKey)
  · intro aggregate member reads
    obtain ⟨nonnegative, small⟩ := valid.inRange aggregate member
    obtain ⟨k, isGroup⟩ := Int.eq_ofNat_of_zero_le nonnegative
    have inside : k < emission.program.scans.length := by
      rw [parts.compiled.length_scans, parts.builtFrom.noGroupingVars_eq]
      omega
    have found := List.getElem?_eq_getElem inside
    obtain ⟨-, cond, -, isScan⟩ := parts.compiled.scan found
    have scan := isScoped.scans _ (List.getElem_mem inside)
    rw [isScan, ScanGenerator.scoped_modeScanStmt_iff, valid.bucketScoped_iff parts] at scan
    refine scan.2.2 aggregate (List.mem_filter.mpr ⟨?_, by simpa using isGroup⟩) reads
    rwa [valid.allAggregates_eq parts]

/-- Lines whose literals are kept must bind their rows. -/
theorem bindsRows_of_scoped
    (isScoped : emission.Scoped query)
    {line : AtomLine}
    (member : line ∈ lines.take query.noGroupingVars)
    (kept : line.Kept query.columns) :
    line.BindsRows query.emf := by
  obtain ⟨i, taken⟩ := List.mem_iff_getElem?.mp member
  rw [List.getElem?_take] at taken
  split_ifs at taken with below
  have inside : i + 1 < emission.program.scans.length := by
    rw [parts.compiled.length_scans, parts.builtFrom.noGroupingVars_eq]
    omega
  obtain ⟨-, cond, isGuard, isScan⟩ := parts.compiled.scan (List.getElem?_eq_getElem inside)
  have scan := isScoped.scans _ (List.getElem_mem inside)
  rw [isScan, ScanGenerator.scoped_modeScanStmt_iff] at scan
  exact (valid.scoped_guard_iff parts taken kept isGuard).mp scan.1

end Query.ValidOver

end Valid

/-- The aggregates of the sale query. -/
def saleAggregates : List Aggregate := [⟨0, "count", "quant"⟩, ⟨1, "sum", "quant"⟩]

/-- `count_quant > 1`. -/
def manySales : HavingFormula :=
  .leafThen (.aggregate .lower ⟨none, .count, "quant"⟩) .gt (.leaf (.constant 1))

/-- The sale query with another select list and another line. -/
def saleQueryWith (selectAttribute : List Text) (line : AtomLine) : Query :=
  { saleQuery false with selectAttribute := selectAttribute, selectCondVect := [line.text] }

theorem saleQueryWith_validOver
    (selectAttribute : List Text)
    (line : AtomLine)
    (columns : ∀ name ∈ getSelectColumns selectAttribute, name = "cust".toList)
    (aggregates : getSelectAggregates selectAttribute = some [⟨1, "sum", "quant"⟩])
    (lineValid : ∀ atom ∈ line.atoms, atom.Valid saleColumns saleAggregates) :
    (saleQueryWith selectAttribute line).ValidOver saleAggregates [line] (some manySales) where
  few := (by decide : 1 < 2 ^ 31)
  named := namedColumns_saleColumns
  plain := by
    simp only [saleQueryWith, saleQuery, List.forall_mem_cons, List.not_mem_nil, false_implies,
      implies_true, and_true]
    decide
  keys := by
    intro attr isKey
    cases List.mem_singleton.mp isKey
    exact ⟨⟨"cust", .varchar⟩, List.mem_cons_self .., rfl⟩
  selected := by
    intro name member
    exact ⟨⟨"cust", .varchar⟩, List.mem_cons_self .., (columns name member).symm⟩
  listed := (by decide : getAllAggregates ["count_quant", "1_sum_quant"] = some saleAggregates)
  inRange := (by decide : ∀ aggregate ∈ saleAggregates,
    0 ≤ aggregate.group ∧ aggregate.group ≤ (1 : Nat))
  selectedAggregates := by
    intro selected isSelected
    cases Option.some.inj (aggregates.symm.trans isSelected)
    decide
  lines_eq := rfl
  lines_valid := by
    intro other member
    cases List.mem_singleton.mp member
    exact lineValid
  having_eq := (by decide : ("count_quant > 1" : Text) = manySales.text)
  having_valid := by
    rintro formula ⟨⟩
    exact ⟨⟨by decide, by decide, by decide⟩, trivial, trivial⟩

theorem quantAbove_valid (n : Int) : (quantAbove n).Valid saleColumns saleAggregates :=
  ⟨(by decide : 1 < 2 ^ 31), ⟨⟨"quant", .int⟩, by decide, rfl⟩, by rintro name ⟨⟩⟩

/-- `cust = cust`. -/
def sameCustomer : LineAtom := .plain ⟨1, "cust", .eq, .attr "cust"⟩

theorem sameCustomer_valid : sameCustomer.Valid saleColumns saleAggregates := by
  have inTable : ∃ column ∈ saleColumns, column.name = "cust".toList := by decide
  refine ⟨(by decide : 1 < 2 ^ 31), inTable, ?_⟩
  rintro name ⟨⟩
  exact inTable

end MfQuery
