import MfQuery.Spelling.Compiled

/-!
# Equivalence of upper and lower case

The helpers, the printer and the first pass are equal up to spelling. A query
is compiled to the same texts in both cases exactly when no count of a string
column is declared and no such-that condition compares with an average.
-/

namespace MfQuery

open Text

/-! ## Helpers -/

/-- Columns declared as strings and integers are compared as such. -/
theorem ctype_of_outType
    {column : Column}
    (type : column.type.getOutCppType = "string".toList ∨
      column.type.getOutCppType = "int64_t".toList) :
    column.ctype = .string ∨ column.ctype = .int64 := by
  unfold Column.ctype
  revert type
  cases column.type <;> decide

theorem respelled_joinAnd
    {comparisons : List Text}
    (each : ∀ comparison ∈ comparisons, Respelled comparison comparison) :
    Respelled (joinAnd comparisons) (joinAnd comparisons) := by
  induction comparisons with
  | nil => exact .nil
  | cons comparison comparisons inductionHypothesis =>
      have here := each comparison (List.mem_cons_self ..)
      have later := inductionHypothesis fun other member =>
        each other (List.mem_cons_of_mem _ member)
      cases comparisons with
      | nil => exact here
      | cons next comparisons =>
          exact (here.append (Respelled.closed (by decide))).append later

/-- Key columns whose texts name no aggregate. -/
def PlainKeys (cols : List Ct) : Prop :=
  ∀ col ∈ cols, Respelled col.name col.name ∧ (col.type = .string ∨ col.type = .int64)

section Keys

variable {cols : List Ct} (keys : PlainKeys cols)
include keys

theorem PlainKeys.keyComparison
    {col : Ct}
    (member : col ∈ cols)
    {left : Text}
    (plain : Respelled left left) :
    Respelled (keyComparison left col) (keyComparison left col) := by
  have name := (keys col member).1
  unfold MfQuery.keyComparison
  cases col.type <;> repeat' with_reducible apply Spelling.Renamed.append
  all_goals first
    | with_reducible exact plain
    | with_reducible exact name
    | exact Respelled.closed (by decide)

theorem PlainKeys.vfindText (i : Nat) : Respelled (vfindText i cols) (vfindText i cols) := by
  have parameters : Respelled
      (cols.flatMap fun col => (", " ++ col.type.getOutCppType ++ " " ++ col.name : Text))
      (cols.flatMap fun col => (", " ++ col.type.getOutCppType ++ " " ++ col.name : Text)) := by
    apply Spelling.Renamed.flatMap
    intro col member
    obtain ⟨name, type⟩ := keys col member
    have typeText : Respelled col.type.getOutCppType col.type.getOutCppType := by
      rcases type with string | int
      · rw [string]
        exact Respelled.closed (by decide)
      · rw [int]
        exact Respelled.closed (by decide)
    exact (((Respelled.closed (by decide)).append typeText).append
      (Respelled.closed (by decide))).append name
  have comparisons : Respelled (joinAnd (cols.map fun col => MfQuery.keyComparison col.name col))
      (joinAnd (cols.map fun col => MfQuery.keyComparison col.name col)) := by
    apply respelled_joinAnd
    rw [List.forall_mem_map]
    intro col member
    exact keys.keyComparison member (keys col member).1
  unfold MfQuery.vfindText
  repeat' with_reducible apply Spelling.Renamed.append
  all_goals first
    | with_reducible exact parameters
    | with_reducible exact comparisons
    | with_reducible exact Respelled.itoa i
    | exact Respelled.closed (by decide +kernel)

theorem PlainKeys.isUniqueText : Respelled (isUniqueText cols) (isUniqueText cols) := by
  have comparisons : Respelled
      (joinAnd (cols.map fun col => MfQuery.keyComparison ("entry->" ++ col.name) col))
      (joinAnd (cols.map fun col => MfQuery.keyComparison ("entry->" ++ col.name) col)) := by
    apply respelled_joinAnd
    rw [List.forall_mem_map]
    intro col member
    exact keys.keyComparison member ((Respelled.closed (by decide)).append (keys col member).1)
  unfold MfQuery.isUniqueText
  repeat' with_reducible apply Spelling.Renamed.append
  all_goals first
    | with_reducible exact comparisons
    | exact Respelled.closed (by decide +kernel)

end Keys

section Helpers

variable {cased : CasedQuery} (valid : cased.Valid)
include valid

theorem CasedQuery.Valid.exists_getCt :
    ∃ cols, getCt cased.groupingAttr cased.columns = some cols ∧ PlainKeys cols := by
  have each : ∀ attr ∈ cased.groupingAttr, ∃ col, getCtEntry cased.columns attr = some col ∧
      Respelled col.name col.name ∧ (col.type = .string ∨ col.type = .int64) := by
    intro attr member
    obtain ⟨column, inTable, isName⟩ := valid.groupingAttr attr member
    have name := valid.respelled_attrs attr member
    rw [getCtEntry]
    cases found : columnInside attr cased.columns with
    | none =>
        have absent := List.find?_eq_none.mp found column inTable
        rw [isName] at absent
        exact absurd ((contains_eq_true _ _).mpr (List.infix_refl attr)) absent
    | some first =>
        have type := ctype_of_outType (valid.types first (List.mem_of_find?_eq_some found))
        exact ⟨_, rfl, name, type⟩
  obtain ⟨cols, looked⟩ := exists_mapM_eq_some fun attr member =>
    (each attr member).imp fun _ found => found.1
  refine ⟨cols, looked, ?_⟩
  intro col member
  obtain ⟨attr, inAttrs, isCol⟩ := exists_entry_of_mem looked member
  obtain ⟨other, isOther, plain⟩ := each attr inAttrs
  rw [isCol] at isOther
  cases isOther
  exact plain

/-- The helpers are the same texts. -/
theorem CasedQuery.Valid.respelled_getHelpers :
    ∃ text, getHelpers cased.n cased.groupingAttr cased.columns = some text ∧
      Respelled text text := by
  obtain ⟨cols, looked, keys⟩ := valid.exists_getCt
  have comparable : (cols.all fun col => col.type.comparable) = true := by
    rw [List.all_eq_true]
    intro col member
    rcases (keys col member).2 with string | int
    · rw [string]
      rfl
    · rw [int]
      rfl
  have find : Respelled ((List.range (cased.n + 1)).flatMap fun i => vfindText i cols)
      ((List.range (cased.n + 1)).flatMap fun i => vfindText i cols) :=
    Spelling.Renamed.flatMap fun i _ => keys.vfindText i
  have uniques : Respelled getUniquesText getUniquesText := by
    unfold getUniquesText
    repeat' with_reducible apply Spelling.Renamed.append
    all_goals exact Respelled.closed (by decide +kernel)
  simp only [getHelpers, looked, Option.bind_eq_bind, Option.bind_some, comparable, if_true]
  exact ⟨_, rfl, (find.append keys.isUniqueText).append uniques⟩

end Helpers

/-! ## The printer and the first pass -/

/-- The field an entry is printed from. -/
def SelectEntry.printed (letterCase : LetterCase) : SelectEntry → Text
  | column name => name
  | aggregate term => (term.aggregate letterCase).toABSVar

section FirstPass

variable {generator : ScanGenerator}
  (plain : ∀ name ∈ generator.selectColumns, Respelled name name)
include plain

theorem respelled_copies
    {var : Text}
    (record : Respelled var var) :
    Respelled (generator.selectColumns.flatMap (ScanGenerator.copyText var))
      (generator.selectColumns.flatMap (ScanGenerator.copyText var)) := by
  apply Spelling.Renamed.flatMap
  intro name member
  have column := plain name member
  unfold ScanGenerator.copyText
  repeat' with_reducible apply Spelling.Renamed.append
  all_goals first
    | with_reducible exact record
    | with_reducible exact column
    | exact Respelled.closed (by decide)

theorem respelled_prelimScan_self : Respelled generator.prelimScan generator.prelimScan := by
  have ofResult := respelled_copies plain
    (show Respelled "entry" "entry" from Respelled.closed (by decide))
  have ofGroup (i : Nat) := respelled_copies plain
    (show Respelled ("entry" ++ itoa i : Text) ("entry" ++ itoa i : Text) from
      (Respelled.closed (by decide)).append (Respelled.itoa i))
  unfold ScanGenerator.prelimScan
  repeat' with_reducible apply Spelling.Renamed.append
  all_goals first
    | with_reducible exact ofResult
    | with_reducible refine Spelling.Renamed.flatMap fun i _ => ?_
    | skip
  repeat' with_reducible apply Spelling.Renamed.append
  all_goals first
    | with_reducible exact Respelled.itoa _
    | with_reducible exact ofGroup _
    | exact Respelled.closed (by decide +kernel)

end FirstPass

section Printer

variable {cased : CasedQuery} (valid : cased.Valid)
include valid

theorem CasedQuery.Valid.printedFields_eq (letterCase : LetterCase) :
    (cased.select.map (SelectEntry.text letterCase)).mapM printedField =
      some (cased.select.map (SelectEntry.printed letterCase)) := by
  rw [List.mapM_map]
  apply mapM_eq_some_map
  intro entry member
  have here := valid.select entry member
  cases entry with
  | column name =>
      have plain := valid.isAggregate_eq_false here
      simp [Function.comp, SelectEntry.text, printedField, plain, SelectEntry.printed]
  | aggregate term =>
      have read := valid.ofText_term letterCase here
      simp [Function.comp, SelectEntry.text, printedField, term.isAggregate_text, read,
        SelectEntry.printed]

/-- The printer is equal up to spelling. -/
theorem CasedQuery.Valid.respelled_createOutputPrinter :
    ∃ lower upper,
      createOutputPrinter (cased.select.map (SelectEntry.text .lower)) = some lower ∧
        createOutputPrinter (cased.select.map (SelectEntry.text .upper)) = some upper ∧
        Respelled lower upper := by
  have titles : Respelled
      ((cased.select.map (SelectEntry.text .lower)).flatMap fun name => (name ++ "|" : Text))
      ((cased.select.map (SelectEntry.text .upper)).flatMap fun name => (name ++ "|" : Text)) := by
    rw [List.flatMap_map, List.flatMap_map]
    apply Spelling.Renamed.flatMap
    intro entry member
    apply Spelling.Renamed.append _ (Respelled.closed (by decide))
    cases entry with
    | column name => exact valid.respelled_name (valid.select _ member)
    | aggregate term => exact term.respelled_text
  have fields : Respelled
      ((cased.select.map (SelectEntry.printed .lower)).flatMap fun field =>
        ("<<(*it)->" ++ field ++ "<<\"|\"" : Text))
      ((cased.select.map (SelectEntry.printed .upper)).flatMap fun field =>
        ("<<(*it)->" ++ field ++ "<<\"|\"" : Text)) := by
    rw [List.flatMap_map, List.flatMap_map]
    apply Spelling.Renamed.flatMap
    intro entry member
    apply Spelling.Renamed.append _ (Respelled.closed (by decide))
    apply Spelling.Renamed.append (Respelled.closed (by decide))
    cases entry with
    | column name => exact valid.respelled_name (valid.select _ member)
    | aggregate term => exact term.respelled_toABSVar
  rw [createOutputPrinter, createOutputPrinter, valid.printedFields_eq, valid.printedFields_eq]
  refine ⟨_, _, rfl, rfl, ?_⟩
  repeat' with_reducible apply Spelling.Renamed.append
  all_goals first
    | with_reducible exact titles
    | with_reducible exact fields
    | exact Respelled.closed (by decide +kernel)

theorem CasedQuery.Valid.respelled_plainColumn
    {name : Text}
    (member : name ∈ cased.plainColumns) :
    Respelled name name := by
  obtain ⟨entry, inSelect, isColumn⟩ := List.mem_filterMap.mp member
  cases entry with
  | aggregate term => cases isColumn
  | column other =>
      cases isColumn
      exact valid.respelled_name (valid.select _ inSelect)

/-- The first pass is the same text. -/
theorem CasedQuery.Valid.respelled_prelimScan :
    Respelled (cased.generator .lower).prelimScan (cased.generator .upper).prelimScan := by
  have same : (cased.generator .upper).prelimScan = (cased.generator .lower).prelimScan := rfl
  rw [same]
  exact respelled_prelimScan_self fun name member => valid.respelled_plainColumn member

end Printer

/-! ## Compiled queries -/

/-- The texts of a query in both cases are equal up to the spelling of the
aggregate fields. -/
def CasedQuery.CaseEquivalent (cased : CasedQuery) : Prop :=
  ∃ header program upperHeader upperProgram,
    (cased.query .lower).compile = some (header, program) ∧
      (cased.query .upper).compile = some (upperHeader, upperProgram) ∧
      Respelled header upperHeader ∧ Respelled program upperProgram

theorem generate_eq
    {generator : ScanGenerator}
    {scans fill : Text}
    (scanned : (if generator.emf then generator.emfAggregateScan
      else generator.aggregateScan) = some scans)
    (filled : generator.fillMfstruct = some fill) :
    generator.generate = some (generator.prelimScan ++ scans ++ fill) := by
  unfold ScanGenerator.generate
  split_ifs at scanned ⊢ <;> rw [scanned, filled] <;> rfl

section Compiled

variable {cased : CasedQuery} (valid : cased.Valid)
include valid

theorem CasedQuery.Valid.compared_generate :
    ∃ lower upper,
      (cased.generator .lower).generate = some lower ∧
        (cased.generator .upper).generate = some upper ∧
        CaseCompared (∀ line ∈ cased.lines, ∀ atom ∈ line.atoms, atom.value.AverageFits)
          lower upper := by
  obtain ⟨lowerScans, upperScans, lowerScan, upperScan, scans⟩ := valid.compared_scans
  obtain ⟨lowerFill, upperFill, lowerLast, upperLast, fill⟩ := valid.respelled_fillMfstruct
  refine ⟨_, _, ?_, ?_, .between valid.respelled_prelimScan scans fill⟩
  · rw [generate_eq lowerScan lowerLast]
  · rw [generate_eq upperScan upperLast]

/-- Both cases compile; the headers differ exactly in counts of string columns
and the programs exactly in averages of conditions. -/
theorem CasedQuery.Valid.compared_compile :
    ∃ header program upperHeader upperProgram,
      (cased.query .lower).compile = some (header, program) ∧
        (cased.query .upper).compile = some (upperHeader, upperProgram) ∧
        CaseCompared (∀ term ∈ cased.fVect, term.CountFits cased.columns) header upperHeader ∧
        CaseCompared (∀ line ∈ cased.lines, ∀ atom ∈ line.atoms, atom.value.AverageFits)
          program upperProgram := by
  obtain ⟨lowerStructures, upperStructures, lowerDeclared, upperDeclared, structures⟩ :=
    valid.respelled_createStructures
  obtain ⟨helpers, looked, helpersPlain⟩ := valid.respelled_getHelpers
  obtain ⟨lowerPrinter, upperPrinter, lowerPrinted, upperPrinted, printer⟩ :=
    valid.respelled_createOutputPrinter
  obtain ⟨lowerBody, upperBody, lowerGenerated, upperGenerated, body⟩ := valid.compared_generate
  refine ⟨_, _, _, _, ?_, ?_, .renamed_append structures valid.compared_createGroupingVarStructs,
    .renamed_append (helpersPlain.append printer) body⟩
  · rw [Query.compile, valid.scanGenerator_eq]
    simp only [CasedQuery.query, lowerDeclared, looked, lowerPrinted, lowerGenerated,
      Option.bind_eq_bind, Option.bind_some]
    rfl
  · rw [Query.compile, valid.scanGenerator_eq]
    simp only [CasedQuery.query, upperDeclared, looked, upperPrinted, upperGenerated,
      Option.bind_eq_bind, Option.bind_some]
    rfl

end Compiled

/-- Customers and quantities. -/
def quantityColumns : List Column := [⟨"cust", .varchar⟩, ⟨"quant", .int⟩]

/-- Per customer, an aggregate over all sales and the largest quantity below
their sum, written in either case. -/
def customerQuery (term : AggregateTerm) : CasedQuery where
  columns := quantityColumns
  select := [.column "cust", .aggregate term, .aggregate ⟨some 1, .max, "quant"⟩]
  n := 1
  groupingAttr := ["cust".toList]
  fVect := [term, ⟨none, .sum, "quant"⟩, ⟨some 1, .max, "quant"⟩]
  lines := [⟨⟨1, "quant", .lt, .aggregate ⟨none, .sum, "quant"⟩⟩, []⟩]
  having := [.aggregate ⟨none, .sum, "quant"⟩, .other ">", .other "10"]
  emf := false

theorem valid_customerQuery
    {term : AggregateTerm}
    (termValid : term.Valid quantityColumns 1) :
    (customerQuery term).Valid where
  named := show ∀ column ∈ quantityColumns, Cpp.isName column.name = true by decide
  plain := show ∀ column ∈ quantityColumns, '_' ∉ column.name by decide
  types := show ∀ column ∈ quantityColumns, column.type.getOutCppType = "string".toList ∨
    column.type.getOutCppType = "int64_t".toList by decide
  small := show 1 < 2 ^ 31 by decide
  select := by
    intro entry member
    simp only [customerQuery, List.mem_cons, List.not_mem_nil, or_false] at member
    rcases member with rfl | rfl | rfl
    · exact ⟨_, List.mem_cons_self .., rfl⟩
    · exact termValid
    · exact ⟨⟨_, List.mem_cons_of_mem _ (List.mem_cons_self ..), rfl⟩, Nat.le_refl 1⟩
  groupingAttr := show ∀ attr ∈ ["cust".toList],
    ∃ column ∈ quantityColumns, column.name = attr by decide
  fVect := by
    intro other member
    simp only [customerQuery, List.mem_cons, List.not_mem_nil, or_false] at member
    rcases member with rfl | rfl | rfl
    · exact termValid
    · exact ⟨⟨_, List.mem_cons_of_mem _ (List.mem_cons_self ..), rfl⟩, Nat.zero_le 1⟩
    · exact ⟨⟨_, List.mem_cons_of_mem _ (List.mem_cons_self ..), rfl⟩, Nat.le_refl 1⟩
  lines := by
    intro line member atom inside
    rw [customerQuery, List.mem_singleton] at member
    subst line
    rw [CasedLine.atoms, List.map_nil, List.mem_singleton] at inside
    subst atom
    exact ⟨by decide, ⟨_, List.mem_cons_of_mem _ (List.mem_cons_self ..), rfl⟩,
      ⟨_, List.mem_cons_of_mem _ (List.mem_cons_self ..), rfl⟩, Nat.zero_le 1⟩
  length_lines := rfl
  having := by
    intro entry member
    simp only [customerQuery, List.mem_cons, List.not_mem_nil, or_false] at member
    rcases member with rfl | rfl | rfl
    · exact ⟨⟨_, List.mem_cons_of_mem _ (List.mem_cons_self ..), rfl⟩, Nat.zero_le 1⟩
    · exact ⟨by decide, by decide, '>', by decide, by decide⟩
    · exact ⟨by decide, by decide, '1', by decide, by decide⟩

end MfQuery
