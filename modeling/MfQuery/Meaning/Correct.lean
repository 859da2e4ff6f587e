import MfQuery.Meaning.Reading
import MfQuery.Meaning.Values

/-!
# Correctness of the compiler

The program emitted for a valid query prints the answer of the query, as long
as its arithmetic stays within the machine's: in an MF query lines compare
columns with literals, in an EMF query they survive the exchange of the two
rows and no aggregate is of group zero.
-/

namespace MfQuery

open Text

/-! ## What the arithmetic needs -/

/-- An operand of HAVING in the exact evaluation. -/
def HavingLeaf.exactOn (value : AggregateTerm → Int) : HavingLeaf → Option Exact
  | aggregate _ term => some (.num true (value term))
  | constant value =>
      if value.natAbs < 2 ^ 63 then some (.num (decide (2 ^ 31 ≤ value.natAbs)) value) else none

/-- HAVING has an exact truth value on the aggregates of a group: no `=` is
executed, quotients have no remainder and results fit. -/
def HavingFormula.ExactOn (formula : HavingFormula) (value : AggregateTerm → Int) : Prop :=
  ((formula.fold (HavingLeaf.exactOn value) HavingOp.exactNode HavingOp.sqlBinds []).bind
    Exact.truth).isSome = true

instance HavingFormula.ExactOn.decidable
    (formula : HavingFormula)
    (value : AggregateTerm → Int) :
    Decidable (formula.ExactOn value) :=
  inferInstanceAs (Decidable (_ = true))

/-- The rows of the grouping variables of a group. -/
def Source.rows (source : Source) (table : List Row) (kept : Row) (i : Nat) : List Row :=
  table.filter (source.selects i kept)

/-- What a query needs of its table: few rows that conform to the columns, and
arithmetic that stays exact. -/
structure Source.Fits (source : Source) (table : List Row) : Prop where
  few : table.length < 2 ^ 31
  conforms : ∀ row ∈ table, Conforms source.columns row
  integers : ∀ term ∈ source.fVect, term.func ≠ .count → IntColumn term.column table
  fits : ∀ kept ∈ firsts (keyOf source.groupingAttr) table, ∀ term ∈ source.fVect,
    term.func.Fits term.column (source.rows table kept term.group)
  exact : ∀ kept ∈ firsts (keyOf source.groupingAttr) table, ∀ formula,
    source.having = some formula →
      formula.ExactOn fun term => term.value (source.rows table kept)

/-! ## Guards -/

theorem Source.readRows_guards (source : Source) : source.guards.ReadRows := fun _ _ _ => rfl

section Correct

variable {source : Source} (valid : source.Valid)
include valid

/-- The guard of a well-formed line. -/
theorem Source.Valid.guard_eq
    {cols : List Ct}
    {i : Nat}
    {cond : Text}
    (condition : source.generator.getSelectionCond (i + 1) = some cond)
    {rows : Iter → Option Row}
    {truth : Line → Bool}
    (tells : ∀ line ∈ source.lines, Cpp.Tells ⟨cols, rows, none⟩ line.expr (some (truth line)))
    (group : Nat → List Record) :
    (cppInterp cols).guard (i + 1) cond rows group =
      some ((source.lines[i]?.map truth).getD false) := by
  cases found : source.lines[i]? with
  | none => simp [ScanGenerator.getSelectionCond, Source.generator, found] at condition
  | some line =>
      have member := List.mem_of_getElem? found
      have written : source.query.selectCondVect[i]? = some line.text := by
        rw [Source.query, List.getElem?_map, found]
        rfl
      obtain ⟨text, translated, read⟩ := Line.getSelectionCond_eq valid.scanGenerator_eq
        valid.named (valid.lines line member) written
      rw [condition, Option.some.injEq] at translated
      subst translated
      simp only [cppInterp, Cpp.condition_of_tells read (tells line member) group]
      rfl

/-- The guards of an MF query. -/
theorem Source.Valid.meantBy_mf
    (mf : source.emf = false)
    (plain : ∀ line ∈ source.lines, line.Plain source.columns)
    {table : List Row}
    (conforms : ∀ row ∈ table, Conforms source.columns row)
    (cols : List Ct) :
    source.guards.MeantBy (cppInterp cols) source.generator table := by
  intro i _ cond condition group
  rw [if_neg (by rw [Source.generator, mf]; exact Bool.false_ne_true)]
  intro row member
  cases i with
  | zero =>
      cases condition
      rfl
  | succ i =>
      exact valid.guard_eq condition
        (fun line inLines => (plain line inLines).tells (conforms row member) rfl) group

/-- The guards of an EMF query. -/
theorem Source.Valid.meantBy_emf
    (emf : source.emf = true)
    (exchangeable : ∀ line ∈ source.lines, line.Exchangeable source.columns)
    {table : List Row}
    (conforms : ∀ row ∈ table, Conforms source.columns row)
    (cols : List Ct) :
    source.guards.MeantBy (cppInterp cols) source.generator table := by
  intro i _ cond condition group
  rw [if_pos (by rw [Source.generator, emf])]
  intro kept keptMember row member
  cases i with
  | zero =>
      cases condition
      rfl
  | succ i =>
      exact valid.guard_eq condition (fun line inLines => (exchangeable line inLines).tells
        (conforms kept keptMember) (conforms row member) rfl rfl) group

omit valid in
/-- In an MF query the guards select the rows the query means. -/
theorem Source.selects_mf
    (mf : source.emf = false)
    (plain : ∀ line ∈ source.lines, line.Plain source.columns)
    (i : Nat) :
    source.guards.selects source.generator (fun _ => []) i = source.selects i := by
  funext kept row
  have mode : source.generator.emf = false := mf
  rw [Guards.selects, if_neg (by rw [mode]; exact Bool.false_ne_true)]
  cases i with
  | zero =>
      simp only [keySelects, Source.selects, source.guards.zero, Bool.and_true]
      rfl
  | succ i =>
      simp only [keySelects, Source.selects, mf, Bool.false_or]
      congr 1
      cases found : source.lines[i]? with
      | none => simp [Source.guards, rowsOf, found]
      | some line =>
          simp only [Source.guards, rowsOf, found, Option.map_some, Option.getD_some]
          exact (plain line (List.mem_of_getElem? found)).meets_eq row kept row

omit valid in
/-- In an EMF query the guards of the grouping variables select the rows the
query means. -/
theorem Source.selects_emf
    (emf : source.emf = true)
    {i : Nat}
    (variable_ : i ≠ 0) :
    source.guards.selects source.generator (fun _ => []) i = source.selects i := by
  funext kept row
  have mode : source.generator.emf = true := emf
  rw [Guards.selects, if_pos mode]
  cases i with
  | zero => exact (variable_ rfl).elim
  | succ i =>
      simp only [Source.selects, emf, Bool.true_or, Bool.true_and]
      rfl

end Correct

/-! ## Aggregates -/

theorem Func.text_injective : Function.Injective (Func.text .lower) := by
  intro left right same
  cases left <;> cases right <;> first | rfl | exact absurd same (by decide)

/-- An aggregate of the F-vector has an entry there with the same parts. -/
theorem AggregateTerm.In.exists_entry
    {fVect : List AggregateTerm}
    {term : AggregateTerm}
    (isIn : term.In fVect) :
    ∃ entry ∈ fVect, entry.aggregate .lower = term.aggregate .lower ∧ entry.func = term.func ∧
      entry.column = term.column ∧ entry.group = term.group := by
  obtain ⟨entry, member, same⟩ := List.mem_map.mp isIn
  have group : (entry.group : Int) = term.group := congrArg Aggregate.group same
  exact ⟨entry, member, same, Func.text_injective (congrArg Aggregate.func same),
    congrArg Aggregate.column same, by omega⟩

section Values

variable {source : Source} {table : List Row} {kept : Row} {term : AggregateTerm}

/-- The guards select the rows the query means, for every aggregate. -/
def Source.Selecting (source : Source) : Prop :=
  ∀ term ∈ source.fVect, source.guards.selects source.generator (fun _ => []) term.group =
    source.selects term.group

/-- The records of a group after the scans. -/
def Source.records (source : Source) (table : List Row) (kept : Row) : Nat → Option Record :=
  source.generator.accumulated
    (fun i => table.filter (source.guards.selects source.generator (fun _ => []) i kept)) kept

theorem Source.Fits.few_rows
    (fits : source.Fits table)
    (kept : Row)
    (i : Nat) :
    (source.rows table kept i).length < 2 ^ 31 :=
  List.filter_sublist.length_le.trans_lt fits.few

theorem Source.Fits.integers_rows
    (fits : source.Fits table)
    (isIn : term.In source.fVect)
    (kept : Row)
    (sums : term.func ≠ .count) :
    IntColumn term.column (source.rows table kept term.group) := by
  obtain ⟨entry, member, -, func, column, -⟩ := isIn.exists_entry
  intro row inRows
  rw [← column]
  exact fits.integers entry member (by rw [func]; exact sums) row (List.mem_of_mem_filter inRows)

/-- The record of an aggregate has folded its field over the rows of its
grouping variable. -/
theorem Source.Valid.exists_record
    (valid : source.Valid)
    (selecting : source.Selecting)
    (isIn : term.In source.fVect)
    (table : List Row)
    (kept : Row) :
    ∃ record, source.records table kept term.group = some record ∧
      record (term.aggregate .lower).toVar =
        (source.rows table kept term.group).foldl (term.aggregate .lower).fieldStep .zero := by
  obtain ⟨entry, member, same, -, -, group⟩ := isIn.exists_entry
  have parsed := Query.parsed_scanGenerator valid.scanGenerator_eq
  have inRange : term.group ≤ source.generator.noGroupingVars := (valid.term_of_in isIn).group_le
  have inBucket : term.aggregate .lower ∈ source.generator.bucket term.group :=
    List.mem_filter.mpr ⟨isIn, decide_eq_true rfl⟩
  have known : (term.aggregate .lower).update ≠ .none := by
    rw [term.update_aggregate]
    cases term.func <;> decide
  have nodup : (source.generator.bucket term.group).Nodup := valid.distinct.filter _
  refine ⟨_, if_pos inRange, ?_⟩
  rw [foldl_applyAll_toVar nodup inBucket (parsed.ownField rfl known),
    plainRecord_toVar parsed.plain_column, ← group]
  simp only [selecting entry member]
  rfl

section Term

variable (valid : source.Valid) (selecting : source.Selecting) (fits : source.Fits table)
  (isKept : kept ∈ firsts (keyOf source.groupingAttr) table) (isIn : term.In source.fVect)
include valid selecting fits isKept isIn

/-- The record of an aggregate reads as its value. -/
theorem Source.Fits.readValue_eq :
    ∃ record, source.records table kept term.group = some record ∧
      ((term.aggregate .lower).readValue record).IsNumber ∧
      ((term.aggregate .lower).readValue record).asInt = term.value (source.rows table kept) ∧
      term.stored .lower record = some (.num true (term.value (source.rows table kept))) := by
  obtain ⟨record, found, field⟩ := valid.exists_record selecting isIn table kept
  obtain ⟨entry, member, -, func, column, group⟩ := isIn.exists_entry
  have fitsHere : term.func.Fits term.column (source.rows table kept term.group) := by
    rw [← func, ← column, ← group]
    exact fits.fits kept isKept entry member
  have integers := fits.integers_rows isIn kept
  have value := AggregateTerm.read_foldl integers (fits.few_rows kept _) fitsHere field
  refine ⟨record, found, AggregateTerm.isNumber_readValue integers field, value, ?_⟩
  rw [AggregateTerm.stored_eq integers field, value]
  rfl

/-- HAVING reads the value of an aggregate at the position of its group. -/
theorem Source.Fits.valueAt_eq
    {group : Nat → List Record}
    {pos : Nat}
    (records : ∀ k, (group k)[pos]? = source.records table kept k) :
    term.valueAt .lower group pos = some (.num true (term.value (source.rows table kept))) := by
  obtain ⟨record, found, -, -, stored⟩ := fits.readValue_eq valid selecting isKept isIn
  rw [AggregateTerm.valueAt, records, found, Option.bind_some, stored]

end Term

/-! ## HAVING -/

/-- HAVING as a predicate of the records of a group. -/
def Source.holdsOn (source : Source) (records : Nat → Option Record) : Bool :=
  (source.having.map fun formula =>
    formula.sqlHolds (fun k => (records k).toList) 0).getD true

/-- Folding a formula over operands that agree. -/
theorem HavingFormula.fold_congr_leaf
    {Tree : Type}
    {formula : HavingFormula}
    {allowed : HavingLeaf → Prop}
    (all : formula.All (fun _ => True) allowed)
    {leafTree leafTree' : HavingLeaf → Tree}
    (same : ∀ leaf, allowed leaf → leafTree leaf = leafTree' leaf)
    (node : HavingOp → Tree → Tree → Tree) :
    formula.fold leafTree node HavingOp.sqlBinds [] =
      formula.fold leafTree' node HavingOp.sqlBinds [] := by
  refine Precedence.Formula.related_fold same ?_ HavingOp.sqlBinds all .nil
  rintro operator left right _ _ - rfl rfl
  rfl

section Group

variable (valid : source.Valid) (selecting : source.Selecting) (fits : source.Fits table)
  (isKept : kept ∈ firsts (keyOf source.groupingAttr) table)
include valid selecting fits isKept

/-- SQL gives HAVING its meaning on the records of a group. -/
theorem Source.Fits.sqlHolds_eq
    {formula : HavingFormula}
    (written : source.having = some formula)
    {group : Nat → List Record}
    {pos : Nat}
    (records : ∀ k, (group k)[pos]? = source.records table kept k) :
    formula.sqlHolds group pos = formula.meant fun term => term.value (source.rows table kept) := by
  unfold HavingFormula.sqlHolds HavingFormula.meant
  rw [HavingFormula.fold_congr_leaf (valid.having formula written).2]
  intro leaf isOver
  cases leaf with
  | constant value => rfl
  | aggregate letterCase term =>
      obtain ⟨rfl, isIn⟩ := isOver
      rw [HavingLeaf.sqlValue, fits.valueAt_eq valid selecting isKept isIn records]
      rfl

/-- HAVING is exact on the records of a group. -/
theorem Source.Fits.exactAt
    {formula : HavingFormula}
    (written : source.having = some formula)
    {group : Nat → List Record}
    {pos : Nat}
    (records : ∀ k, (group k)[pos]? = source.records table kept k) :
    formula.ExactAt group pos := by
  have exact := fits.exact kept isKept formula written
  unfold HavingFormula.ExactOn at exact
  unfold HavingFormula.ExactAt HavingFormula.exact
  rwa [HavingFormula.fold_congr_leaf (valid.having formula written).2]
  intro leaf isOver
  cases leaf with
  | constant value => rfl
  | aggregate letterCase term =>
      obtain ⟨rfl, isIn⟩ := isOver
      rw [HavingLeaf.exactValue, fits.valueAt_eq valid selecting isKept isIn records]
      rfl

theorem Source.Fits.holdsOn_eq :
    source.holdsOn (source.records table kept) =
      source.accepts fun term => term.value (source.rows table kept) := by
  unfold Source.holdsOn Source.accepts
  cases written : source.having with
  | none => rfl
  | some formula =>
      refine fits.sqlHolds_eq valid selecting isKept written fun k => ?_
      cases source.records table kept k <;> rfl

/-- The emitted HAVING condition tells whether the group is accepted. -/
theorem Source.Fits.cppHaving_eq
    (cols : List Ct)
    {group : Nat → List Record}
    {pos : Nat}
    (pos_lt : pos < 2 ^ 31)
    (records : ∀ k, (group k)[pos]? = source.records table kept k) :
    cppHaving cols ((source.having.map HavingFormula.cpp).getD "true") pos group =
      some (source.holdsOn fun k => (group k)[pos]?, group) := by
  rw [funext records, fits.holdsOn_eq valid selecting isKept, Source.accepts]
  cases written : source.having with
  | none => rfl
  | some formula =>
      have formulaValid := valid.having_valid written
      obtain ⟨truth, isTruth⟩ := Option.isSome_iff_exists.mp
        (fits.exactAt valid selecting isKept written records)
      obtain ⟨value, isValue, valueTruth⟩ := Option.bind_eq_some_iff.mp isTruth
      have holds : formula.sqlHolds group pos = truth := by
        rw [HavingFormula.sqlHolds, formula.sqlGives_exact formulaValid group pos value isValue,
          Exact.truth_toSql valueTruth]
        rfl
      obtain ⟨val, evaluated, matching⟩ := formula.computes_expr formulaValid
        (valid.having formula written).1 pos_lt cols group value isValue
      have read := formula.read_cpp (HavingFormula.Valid.written valid.named formulaValid)
      rw [havingEnv] at evaluated
      have meant := fits.sqlHolds_eq valid selecting isKept written records
      simp only [Option.map_some, Option.getD_some, ← meant, holds, cppHaving, Cpp.condition, read,
        Option.bind_some, evaluated, matching.truth_eq valueTruth]

/-! ## Result rows -/

/-- Every select entry is printed from its field as the query shows it. -/
theorem Source.Fits.printed_eq
    {entry : SelectEntry}
    (member : entry ∈ source.select) :
    (source.generator.resultRecord (source.records table kept) kept entry.field).printed =
      entry.shown kept fun term => term.value (source.rows table kept) := by
  have plain := valid.select entry member
  cases entry with
  | column name =>
      have inSelect : name ∈ source.generator.selectColumns :=
        List.mem_filterMap.mpr ⟨_, member, rfl⟩
      rw [ScanGenerator.resultRecord, SelectEntry.field,
        FillPass.filled_plain (valid.underscore_notMem plain), plainRecord, if_pos inSelect]
      rfl
  | aggregate term =>
      have isIn := valid.selected term member
      obtain ⟨record, found, isNumber, value, -⟩ :=
        fits.readValue_eq valid selecting isKept isIn
      have chosen : term.aggregate .lower ∈ source.generator.selectAggregates :=
        List.mem_map_of_mem (List.mem_filterMap.mpr ⟨_, member, rfl⟩)
      have own : ∀ other ∈ source.generator.selectAggregates,
          other.toABSVar = (term.aggregate .lower).toABSVar → other = term.aggregate .lower := by
        intro other inside same
        obtain ⟨otherTerm, inTerms, rfl⟩ := List.mem_map.mp inside
        obtain ⟨otherEntry, inSelect, isTerm⟩ := List.mem_filterMap.mp inTerms
        cases otherEntry with
        | column name => cases isTerm
        | aggregate otherTerm =>
            cases isTerm
            exact Aggregate.toABSVar_injOn (valid.writable_term (valid.select _ inSelect))
              (valid.writable_term plain) same
      have group : (term.aggregate .lower).group.toNat = term.group := Int.toNat_natCast _
      rw [ScanGenerator.resultRecord, SelectEntry.field, FillPass.filled_toABSVar chosen own, group,
        found]
      change ((term.aggregate .lower).readValue record).printed = _
      rw [isNumber.printed_eq, value]
      rfl

theorem Source.Fits.printLine_eq :
    printLine (source.select.map SelectEntry.field)
        (source.generator.resultRecord (source.records table kept) kept) =
      source.shown kept fun term => term.value (source.rows table kept) := by
  unfold printLine Source.shown
  rw [List.flatMap_map]
  congr 1
  apply List.flatMap_congr
  intro entry member
  rw [fits.printed_eq valid selecting isKept member]

end Group

end Values

/-! ## Correctness -/

section Main

variable {source : Source} {table : List Row} (valid : source.Valid)
  (selecting : source.Selecting) (fits : source.Fits table)
include valid selecting fits

/-- Where the guards mean the lines of the query, the emitted program prints its
answer. -/
theorem Source.Fits.output_eq_answer
    (means : ∀ cols, source.guards.MeantBy (cppInterp cols) source.generator table) :
    source.query.output table = some (source.answer table) := by
  obtain ⟨cols, keyedBy⟩ := valid.exists_keyedBy fits.conforms
  obtain ⟨program, compiled⟩ := valid.exists_program
  have shape := ScanGenerator.compiled_of_program compiled
  have having : program.fill.having = (source.having.map HavingFormula.cpp).getD "true" :=
    Option.some.inj (shape.having_eq.symm.trans valid.parseHaving_eq)
  have selected : ∀ aggregate ∈ source.generator.selectAggregates,
      aggregate ∈ source.generator.allAggregates := by
    intro aggregate member
    obtain ⟨term, inTerms, rfl⟩ := List.mem_map.mp member
    obtain ⟨entry, inSelect, isTerm⟩ := List.mem_filterMap.mp inTerms
    cases entry with
    | column name => cases isTerm
    | aggregate term =>
        cases isTerm
        exact valid.selected term inSelect
  have fields := (valid.read_select source.select valid.select).2.2
  have tells : ∀ store, Scanned source.guards source.generator table store →
      (∀ k > source.generator.noGroupingVars, store.group k = []) →
        program.fill.TellsAt (cppHaving cols) store source.holdsOn := by
    intro store scanned beyond pos inside
    have atPos : (firsts (keyOf source.groupingAttr) table)[pos]? = some store.uniques[pos] := by
      rw [← List.getElem?_eq_getElem inside, scanned.uniques_eq]
      rfl
    have few : pos < 2 ^ 31 := by
      have length := (FirstOccurrence.firsts_sublist (keyOf source.groupingAttr) table).length_le
      have below := (List.getElem?_eq_some_iff.mp atPos).1
      have rows := fits.few
      omega
    rw [having]
    exact fits.cppHaving_eq valid selecting (List.mem_of_getElem? atPos) cols few fun k =>
      scanned.getElem?_of_kept beyond source.readRows_guards atPos k
  have printed := output_eq_grouping valid.scanGenerator_eq compiled keyedBy
    (.of_length fits.few _) (means cols) source.readRows_guards selected tells
  rw [printed]
  change Option.map _ ((source.select.map (SelectEntry.text .lower)).mapM printedField) = _
  rw [fields, Option.map_some]
  refine congrArg some (Grouping.answer_congr rfl fun kept isKept => ?_)
  have accepted := fits.holdsOn_eq valid selecting isKept
  have line := fits.printLine_eq valid selecting isKept
  change (if source.holdsOn (source.records table kept) then
    some (printLine (source.select.map SelectEntry.field)
      (source.generator.resultRecord (source.records table kept) kept)) else none) = _
  rw [accepted, line]
  rfl

end Main

/-! ## The running example -/

/-- Per customer with several sales in grouping variable 1, the sum of their
quantities. -/
def saleSource (line : Line) (emf : Bool) : Source where
  columns := saleColumns
  select := [.column "cust", .aggregate ⟨some 1, .sum, "quant"⟩]
  groupingAttr := ["cust"]
  fVect := [⟨some 1, .count, "quant"⟩, ⟨some 1, .sum, "quant"⟩]
  lines := [line]
  having := some (.leafThen (.aggregate .lower ⟨some 1, .count, "quant"⟩) .gt
    (.leaf (.constant 1)))
  emf := emf

theorem valid_saleSource
    {line : Line}
    (wellFormed : line.WellFormed saleColumns)
    (emf : Bool) :
    (saleSource line emf).Valid where
  named := namedColumns_saleColumns
  plain := (by decide : ∀ column ∈ saleColumns, '_' ∉ column.name)
  few := (by decide : 1 < 2 ^ 31)
  keys := by
    intro attr member
    rw [List.mem_singleton.mp member]
    exact ⟨⟨"cust", .varchar⟩, rfl, rfl, .inr rfl⟩
  grouped := by
    intro attr member
    rw [List.mem_singleton.mp member]
    exact List.mem_cons_self ..
  select := by
    intro entry member
    rcases List.mem_pair.mp member with rfl | rfl
    · exact ⟨⟨"cust", .varchar⟩, List.mem_cons_self .., rfl⟩
    · exact ⟨⟨⟨"quant", .int⟩, List.mem_of_getElem? (i := 1) rfl, rfl⟩, le_rfl⟩
  fVect := by
    intro term member
    rcases List.mem_pair.mp member with rfl | rfl
    · exact ⟨⟨⟨"quant", .int⟩, List.mem_of_getElem? (i := 1) rfl, rfl⟩, le_rfl⟩
    · exact ⟨⟨⟨"quant", .int⟩, List.mem_of_getElem? (i := 1) rfl, rfl⟩, le_rfl⟩
  distinct := List.nodup_cons.mpr ⟨by decide, List.nodup_singleton _⟩
  selected := by
    intro term member
    rcases List.mem_pair.mp member with same | same
    · cases same
    · cases same
      exact List.mem_of_getElem? (i := 1) rfl
  lines := List.forall_mem_singleton.mpr wellFormed
  having := by
    rintro formula ⟨⟩
    exact ⟨⟨fun _ waiting => waiting.elim, trivial⟩, ⟨rfl, List.mem_cons_self ..⟩, trivial, trivial⟩

theorem conforms_saleTable : ∀ row ∈ saleTable, Conforms saleColumns row := by
  intro row member column inTable _
  obtain ⟨sale, inSales, rfl⟩ := List.mem_map.mp member
  rcases List.mem_pair.mp inTable with rfl | rfl
  · exact trivial
  · have bounded : ∀ sale ∈ [("A", 4), ("B", 9), ("A", 7), ("A", 20)],
        -2 ^ 63 ≤ (sale : String × Int).2 ∧ sale.2 < 2 ^ 63 := by
      decide
    exact bounded sale inSales

theorem integers_saleTable : IntColumn "quant" saleTable := by
  intro row member
  obtain ⟨sale, -, rfl⟩ := List.mem_map.mp member
  exact ⟨sale.2, rfl⟩

/-- What is left to check on the rows of a group. -/
theorem fits_saleSource
    {line : Line}
    {emf : Bool}
    (groups : ∀ kept ∈ firsts (keyOf ["cust"]) saleTable,
      let rows := (saleSource line emf).rows saleTable kept
      Func.sum.Fits "quant" (rows 1) ∧ HavingFormula.ExactOn
        (.leafThen (.aggregate .lower ⟨some 1, .count, "quant"⟩) .gt (.leaf (.constant 1)))
        fun term => term.value rows) :
    (saleSource line emf).Fits saleTable where
  few := (by decide : saleTable.length < 2 ^ 31)
  conforms := conforms_saleTable
  integers := by
    intro term member _
    rcases List.mem_pair.mp member with rfl | rfl <;> exact integers_saleTable
  fits := by
    intro kept isKept term member
    rcases List.mem_pair.mp member with rfl | rfl
    · exact trivial
    · exact (groups kept isKept).1
  exact := by
    rintro kept isKept formula ⟨⟩
    exact (groups kept isKept).2

theorem wellFormed_saleLine : saleLine.WellFormed saleColumns :=
  literalLines_saleQuery.wellFormed saleLine (List.mem_singleton.mpr rfl)

theorem plain_saleLine : saleLine.Plain saleColumns where
  unmixed := rfl
  literal := List.forall_mem_singleton.mpr ⟨⟨"quant", .int⟩, List.mem_of_getElem? (i := 1) rfl,
    rfl, rfl, by decide, (by decide : Int.natAbs 5 < 2 ^ 63)⟩

/-- The sales of the other customers. -/
def othersLine : Line := ⟨⟨1, "cust", .diamond, .attr "cust"⟩, []⟩

theorem wellFormed_othersLine : othersLine.WellFormed saleColumns where
  atoms := List.forall_mem_singleton.mpr ⟨(by decide : 1 < 2 ^ 31),
    ⟨⟨"cust", .varchar⟩, List.mem_cons_self .., rfl⟩, ⟨"cust", .varchar⟩, List.mem_cons_self .., rfl⟩
  spaceless := List.forall_mem_singleton.mpr trivial

theorem exchangeable_othersLine : othersLine.Exchangeable saleColumns where
  unmixed := rfl
  atom := List.forall_mem_singleton.mpr (.inl ⟨rfl, .inr (.inr rfl),
    ⟨⟨"cust", .varchar⟩, List.mem_cons_self .., rfl, .inr rfl⟩, by decide⟩)

end MfQuery
