import MfQuery.Meaning.Guards
import MfQuery.Names
import MfQuery.Program.EmfGuard

/-!
# Reading a written query

A valid query is over columns of the table whose names are identifiers without
underscores, its select list and its HAVING condition use aggregates of the
F-vector, and its keys are compared at their own type. Such a query is read
into its parts, and the generator emits a program for it.
-/

namespace MfQuery

open Text

/-- The aggregate is one of the F-vector. -/
def AggregateTerm.In (fVect : List AggregateTerm) (term : AggregateTerm) : Prop :=
  term.aggregate .lower ∈ fVect.map (AggregateTerm.aggregate .lower)

/-- The operand is a constant or an aggregate of the F-vector. -/
def HavingLeaf.Over (fVect : List AggregateTerm) : HavingLeaf → Prop
  | aggregate letterCase term => letterCase = .lower ∧ term.In fVect
  | constant _ => True

/-- A query over the columns of the table. -/
structure Source.Valid (source : Source) : Prop where
  named : NamedColumns source.columns
  plain : ∀ column ∈ source.columns, '_' ∉ column.name
  few : source.lines.length < 2 ^ 31
  keys : ∀ attr ∈ source.groupingAttr, ∃ column, columnInside attr source.columns = some column ∧
    column.name = attr ∧ (column.ctype = .int64 ∨ column.ctype = .string)
  grouped : ∀ attr ∈ source.groupingAttr, SelectEntry.column attr ∈ source.select
  select : ∀ entry ∈ source.select, entry.Valid source.columns source.lines.length
  fVect : ∀ term ∈ source.fVect, term.Valid source.columns source.lines.length
  distinct : (source.fVect.map (AggregateTerm.aggregate .lower)).Nodup
  selected : ∀ term, SelectEntry.aggregate term ∈ source.select → term.In source.fVect
  lines : ∀ line ∈ source.lines, line.WellFormed source.columns
  having : ∀ formula, source.having = some formula →
    formula.TablesAgree ∧ formula.All (fun _ => True) (HavingLeaf.Over source.fVect)

namespace Source

/-- The plain columns of the select list. -/
def plainColumns (source : Source) : List Text := source.select.filterMap SelectEntry.column?

/-- The aggregates of the select list. -/
def selectTerms (source : Source) : List AggregateTerm :=
  source.select.filterMap SelectEntry.term?

/-- The scan generator of the written query. -/
def generator (source : Source) : ScanGenerator where
  noGroupingVars := source.lines.length
  columns := source.columns
  selectColumns := source.plainColumns
  selectAggregates := source.selectTerms.map (AggregateTerm.aggregate .lower)
  allAggregates := source.fVect.map (AggregateTerm.aggregate .lower)
  selectConditions := source.lines.map Line.conditions
  having := (source.having.map HavingFormula.text).getD []
  groupingAttr := source.groupingAttr
  emf := source.emf

end Source

/-- Scans are emitted where all their conditions are. -/
theorem ScanGenerator.exists_scanStmts
    (generator : ScanGenerator)
    (buckets : List (List Aggregate))
    (i : Nat)
    (conditions : ∀ k < buckets.length, ∃ cond, generator.getSelectionCond (i + k) = some cond) :
    ∃ statements, generator.scanStmts i buckets = some statements := by
  induction buckets generalizing i with
  | nil => exact ⟨[], rfl⟩
  | cons bucket buckets inductionHypothesis =>
      obtain ⟨cond, condition⟩ := conditions 0 (by simp)
      obtain ⟨rest, later⟩ := inductionHypothesis (i + 1) fun k inside => by
        rw [Nat.add_assoc, Nat.add_comm 1 k]
        exact conditions (k + 1) (by simpa using inside)
      rw [Nat.add_zero] at condition
      exact ⟨_, by rw [ScanGenerator.scanStmts, condition, later]; rfl⟩

/-- The result field of a select entry. -/
def SelectEntry.field : SelectEntry → Text
  | column name => name
  | aggregate term => (term.aggregate .lower).toABSVar

section Reading

variable {source : Source} (valid : source.Valid)
include valid

/-- A name of the table has no underscore. -/
theorem Source.Valid.underscore_notMem
    {name : Text}
    (inTable : ∃ column ∈ source.columns, column.name = name) :
    '_' ∉ name := by
  obtain ⟨column, member, rfl⟩ := inTable
  exact valid.plain column member

theorem Source.Valid.isIdent_name
    {name : Text}
    (inTable : ∃ column ∈ source.columns, column.name = name) :
    isIdent name = true := by
  obtain ⟨column, member, rfl⟩ := inTable
  exact isIdent_of_isName (valid.named column member)

theorem Source.Valid.isAggregate_eq_false
    {name : Text}
    (inTable : ∃ column ∈ source.columns, column.name = name) :
    Aggregate.isAggregate name = false := by
  rw [Bool.eq_false_iff]
  intro isAggregate
  exact valid.underscore_notMem inTable ((Aggregate.isAggregate_eq_true _).mp isAggregate)

section Terms

variable {term : AggregateTerm} (termValid : term.Valid source.columns source.lines.length)
include termValid

theorem Source.Valid.ofText_term :
    Aggregate.ofText (term.text .lower) = some (term.aggregate .lower) :=
  term.ofText_text (valid.isIdent_name termValid.column_mem) .lower
    (valid.underscore_notMem termValid.column_mem) (termValid.group_le.trans_lt valid.few)

theorem Source.Valid.writable_term : (term.aggregate .lower).Writable where
  group_gt := by
    have nonnegative : (0 : Int) ≤ term.group := Int.natCast_nonneg _
    exact lt_of_lt_of_le (by decide) nonnegative
  group_lt := by
    have below := termValid.group_le.trans_lt valid.few
    change (term.group : Int) < 2 ^ 31
    omega
  func_ne_nil := term.func.text_ne_nil .lower
  func_plain := term.func.underscore_notMem_text .lower
  column_plain := valid.underscore_notMem termValid.column_mem
  column_visible := exists_visible_of_isIdent (valid.isIdent_name termValid.column_mem)

end Terms

/-- Plain entries and aggregates are told apart, and each is printed from its
field. -/
theorem Source.Valid.read_select
    (select : List SelectEntry)
    (entries : ∀ entry ∈ select, entry.Valid source.columns source.lines.length) :
    getSelectColumns (select.map (SelectEntry.text .lower)) =
        select.filterMap SelectEntry.column? ∧
      getSelectAggregates (select.map (SelectEntry.text .lower)) =
        some ((select.filterMap SelectEntry.term?).map (AggregateTerm.aggregate .lower)) ∧
      (select.map (SelectEntry.text .lower)).mapM printedField =
        some (select.map SelectEntry.field) := by
  rw [getSelectColumns, getSelectAggregates]
  induction select with
  | nil => exact ⟨rfl, rfl, rfl⟩
  | cons entry select inductionHypothesis =>
      obtain ⟨columns, aggregates, fields⟩ := inductionHypothesis fun other member =>
        entries other (List.mem_cons_of_mem _ member)
      have here := entries entry (List.mem_cons_self ..)
      cases entry with
      | column name =>
          have plain := valid.isAggregate_eq_false here
          simp [SelectEntry.text, SelectEntry.column?, SelectEntry.term?, List.filterMap_cons, plain,
            columns, aggregates, fields, printedField, SelectEntry.field]
      | aggregate term =>
          have read := valid.ofText_term here
          simp [SelectEntry.text, SelectEntry.column?, SelectEntry.term?, List.filterMap_cons,
            AggregateTerm.isAggregate_text, read, columns, aggregates, fields, printedField,
            SelectEntry.field]

/-- A written query is read into its generator. -/
theorem Source.Valid.scanGenerator_eq :
    source.query.scanGenerator = some source.generator := by
  obtain ⟨columns, aggregates, -⟩ := valid.read_select source.select valid.select
  have all : getAllAggregates (source.fVect.map (AggregateTerm.text .lower)) =
      some (source.fVect.map (AggregateTerm.aggregate .lower)) := by
    rw [getAllAggregates, List.mapM_map]
    exact mapM_eq_some_map fun term member => valid.ofText_term (valid.fVect term member)
  have conditions : getConditions (source.lines.map Line.text) =
      some (source.lines.map Line.conditions) := by
    rw [getConditions, List.mapM_map]
    exact mapM_eq_some_map fun line member =>
      line.ofText_text valid.named (valid.lines line member)
  rw [Query.scanGenerator_eq_some_iff]
  refine ⟨_, _, _, all, aggregates, conditions, ?_⟩
  simp only [Source.generator, Source.query, columns]
  rfl

/-- Keys are compared at the types of their columns. -/
theorem Source.Valid.exists_getCt :
    ∃ cols, getCt source.groupingAttr source.columns = some cols ∧
      ∀ col ∈ cols, ∃ column ∈ source.columns, column.name = col.name ∧
        column.ctype = col.type ∧ (column.ctype = .int64 ∨ column.ctype = .string) := by
  have each : ∀ attr ∈ source.groupingAttr, ∃ col, getCtEntry source.columns attr = some col := by
    intro attr member
    obtain ⟨column, found, -⟩ := valid.keys attr member
    exact ⟨_, by rw [getCtEntry, found]; rfl⟩
  obtain ⟨cols, looked⟩ := exists_mapM_eq_some each
  refine ⟨cols, looked, fun col member => ?_⟩
  obtain ⟨attr, inAttrs, entry⟩ := exists_entry_of_mem looked member
  obtain ⟨column, found, name, type⟩ := valid.keys attr inAttrs
  rw [getCtEntry, found] at entry
  cases entry
  exact ⟨column, List.mem_of_find?_eq_some found, name, rfl, type⟩

/-- On conforming rows the query is keyed. -/
theorem Source.Valid.exists_keyedBy
    {table : List Row}
    (conforms : ∀ row ∈ table, Conforms source.columns row) :
    ∃ cols, source.query.KeyedBy cols table := by
  obtain ⟨cols, types, columns⟩ := valid.exists_getCt
  refine ⟨cols, types, fun col member => ?_, fun attr member => ?_⟩
  · obtain ⟨column, inTable, name, sameType, type⟩ := columns col member
    rw [← sameType, ← name]
    refine ⟨type.symm, fun row inRows => ?_⟩
    have stored := conforms row inRows column inTable type
    rcases type with isInt | isString
    · rw [isInt] at stored ⊢
      obtain ⟨value, content, -⟩ := exists_int_of_stored stored
      exact ⟨value, content⟩
    · rw [isString] at stored ⊢
      exact exists_str_of_stored stored
  · have columns := (valid.read_select source.select valid.select).1
    change attr ∈ getSelectColumns (source.select.map (SelectEntry.text .lower))
    rw [columns]
    exact List.mem_filterMap.mpr ⟨_, valid.grouped attr member, rfl⟩

/-- An aggregate of the F-vector is valid. -/
theorem Source.Valid.term_of_in
    {term : AggregateTerm}
    (isIn : term.In source.fVect) :
    term.Valid source.columns source.lines.length := by
  obtain ⟨other, member, same⟩ := List.mem_map.mp isIn
  have otherValid := valid.fVect other member
  have group : other.group = term.group := by
    have sameGroup : (other.group : Int) = term.group := congrArg Aggregate.group same
    omega
  have column : other.column = term.column := congrArg Aggregate.column same
  exact ⟨column ▸ otherValid.column_mem, group ▸ otherValid.group_le⟩

theorem Source.Valid.having_valid
    {formula : HavingFormula}
    (written : source.having = some formula) :
    formula.Valid source.columns := by
  refine Precedence.Formula.All.imp (fun leaf isOver => ?_) (valid.having formula written).2
  cases leaf with
  | constant value => exact trivial
  | aggregate letterCase term =>
      have termValid := valid.term_of_in isOver.2
      exact ⟨termValid.column_mem, valid.underscore_notMem termValid.column_mem,
        termValid.group_le.trans_lt valid.few⟩

/-- The emitted HAVING condition. -/
theorem Source.Valid.parseHaving_eq :
    source.generator.parseHaving = some ((source.having.map HavingFormula.cpp).getD "true") := by
  cases written : source.having with
  | none =>
      have empty : source.generator.having = [] := by
        simp only [Source.generator, written]
        rfl
      rw [ScanGenerator.parseHaving, empty]
      rfl
  | some formula =>
      have text : source.generator.having = formula.text := by
        simp only [Source.generator, written]
        rfl
      exact formula.parseHaving_eq valid.named
        (HavingFormula.Valid.written valid.named (valid.having_valid written)) rfl text

theorem Source.Valid.groupsInRange : source.generator.GroupsInRange := by
  intro aggregate member
  obtain ⟨term, inF, rfl⟩ := List.mem_map.mp member
  have upper := (valid.fVect term inF).group_le
  change (0 : Int) ≤ (term.group : Int) ∧ (term.group : Int) ≤ (source.lines.length : Int)
  omega

/-- The generator emits a program. -/
theorem Source.Valid.exists_program : ∃ program, source.generator.program = some program := by
  have conditions : ∀ i ≤ source.lines.length, ∃ cond,
      source.generator.getSelectionCond i = some cond := by
    intro i inRange
    cases i with
    | zero => exact ⟨_, rfl⟩
    | succ i =>
        have found := List.getElem?_eq_getElem (Nat.lt_of_succ_le inRange)
        have written : source.query.selectCondVect[i]? = some (source.lines[i]).text := by
          rw [Source.query, List.getElem?_map, found]
          rfl
        obtain ⟨cond, condition, -⟩ := Line.getSelectionCond_eq valid.scanGenerator_eq valid.named
          (valid.lines _ (List.getElem_mem _)) written
        exact ⟨cond, condition⟩
  obtain ⟨statements, written⟩ := source.generator.exists_scanStmts
    ((List.range (source.lines.length + 1)).map source.generator.bucket) 0 fun k inside =>
      conditions (0 + k) (by rw [List.length_map, List.length_range] at inside; omega)
  refine ⟨⟨source.generator.prelimStmt, statements, ⟨source.groupingAttr,
    (source.having.map HavingFormula.cpp).getD "true", source.generator.selectAggregates⟩⟩, ?_⟩
  rw [ScanGenerator.program, ScanGenerator.groupAggregates_eq valid.groupsInRange,
    valid.parseHaving_eq]
  simp only [Option.bind_eq_bind, Option.bind_some]
  rw [show source.generator.noGroupingVars = source.lines.length from rfl, written]
  rfl

end Reading

end MfQuery
