import MfQuery.Lib.Partial
import MfQuery.ScanGenerator

/-!
# Queries

A query is the seven parts the user enters, over the columns of the queried
table. `parse_query` turns its texts into aggregates and conditions and hands
them to the scan generator.
-/

namespace MfQuery

open Text

/-- The arguments of `parse_query`, with the columns of the table. -/
structure Query where
  columns : List Column
  selectAttribute : List Text
  noGroupingVars : Nat
  groupingAttr : List Text
  fVect : List Text
  selectCondVect : List Text
  having : Text
  emf : Bool
  deriving DecidableEq, Repr

/-- `getAllAggregates`. -/
def getAllAggregates (fVect : List Text) : Option (List Aggregate) :=
  fVect.mapM Aggregate.ofText

/-- `getSelectAggregates`: the aggregates of the select list. -/
def getSelectAggregates (selectAttribute : List Text) : Option (List Aggregate) :=
  (selectAttribute.filter Aggregate.isAggregate).mapM Aggregate.ofText

/-- The entries of the select list that `getSelectAggregates` leaves as
columns. -/
def getSelectColumns (selectAttribute : List Text) : List Text :=
  selectAttribute.filter fun name => !Aggregate.isAggregate name

/-- `Conditions::getConditions`. -/
def getConditions (cond : List Text) : Option (List Conditions) :=
  cond.mapM Conditions.ofText

namespace Query

/-- The scan generator `parse_query` builds. -/
def scanGenerator (query : Query) : Option ScanGenerator := do
  let allAggregates ← getAllAggregates query.fVect
  let selectAggregates ← getSelectAggregates query.selectAttribute
  let selectConditions ← getConditions query.selectCondVect
  return ⟨query.noGroupingVars, query.columns, getSelectColumns query.selectAttribute,
    selectAggregates, allAggregates, selectConditions, query.having, query.groupingAttr,
    query.emf⟩

/-- The structures and the functions `parse_query` writes. -/
def compile (query : Query) : Option (Text × Text) := do
  let generator ← query.scanGenerator
  let structures ← createStructures query.selectAttribute query.columns
  let helpers ← getHelpers query.noGroupingVars query.groupingAttr query.columns
  let printer ← createOutputPrinter query.selectAttribute
  let body ← generator.generate
  return (structures ++ createGroupingVarStructs query.noGroupingVars query.columns
    generator.selectColumns generator.allAggregates, helpers ++ printer ++ body)

end Query

/-- What every scan generator built from a query has: plain columns carry no
underscore, and the functions of its aggregates were cut at underscores. -/
structure ScanGenerator.Parsed (generator : ScanGenerator) : Prop where
  plain_column : ∀ column ∈ generator.selectColumns, '_' ∉ column
  func_tail : ∀ aggregate ∈ generator.allAggregates, '_' ∉ aggregate.func.tail

theorem underscore_notMem_selectColumn
    {selectAttribute : List Text}
    {column : Text}
    (member : column ∈ getSelectColumns selectAttribute) :
    '_' ∉ column := by
  simp only [getSelectColumns, List.mem_filter, Bool.not_eq_true'] at member
  intro underscore
  rw [(Aggregate.isAggregate_eq_true column).mpr underscore] at member
  exact Bool.noConfusion member.2

/-- The parts of a scan generator that come from its query unchanged. -/
theorem Query.scanGenerator_eq_some_iff
    (query : Query)
    (generator : ScanGenerator) :
    query.scanGenerator = some generator ↔
      ∃ allAggregates selectAggregates selectConditions,
        getAllAggregates query.fVect = some allAggregates ∧
        getSelectAggregates query.selectAttribute = some selectAggregates ∧
        getConditions query.selectCondVect = some selectConditions ∧
        generator = ⟨query.noGroupingVars, query.columns,
          getSelectColumns query.selectAttribute, selectAggregates, allAggregates,
          selectConditions, query.having, query.groupingAttr, query.emf⟩ := by
  simp only [scanGenerator, Option.bind_eq_bind, Option.bind_eq_some_iff, Option.pure_def,
    Option.some.injEq]
  constructor
  · rintro ⟨allAggregates, all, selectAggregates, select, selectConditions, conditions, rfl⟩
    exact ⟨allAggregates, selectAggregates, selectConditions, all, select, conditions, rfl⟩
  · rintro ⟨allAggregates, selectAggregates, selectConditions, all, select, conditions, rfl⟩
    exact ⟨allAggregates, all, selectAggregates, select, selectConditions, conditions, rfl⟩

/-- Where each part of a scan generator comes from. -/
structure ScanGenerator.BuiltFrom (query : Query) (generator : ScanGenerator) : Prop where
  noGroupingVars_eq : generator.noGroupingVars = query.noGroupingVars
  columns_eq : generator.columns = query.columns
  selectColumns_eq : generator.selectColumns = getSelectColumns query.selectAttribute
  selectAggregates_eq :
    getSelectAggregates query.selectAttribute = some generator.selectAggregates
  allAggregates_eq : getAllAggregates query.fVect = some generator.allAggregates
  selectConditions_eq : getConditions query.selectCondVect = some generator.selectConditions
  having_eq : generator.having = query.having
  groupingAttr_eq : generator.groupingAttr = query.groupingAttr
  emf_eq : generator.emf = query.emf

theorem Query.builtFrom
    {query : Query}
    {generator : ScanGenerator}
    (built : query.scanGenerator = some generator) :
    generator.BuiltFrom query := by
  obtain ⟨_, _, _, all, select, conditions, rfl⟩ :=
    (query.scanGenerator_eq_some_iff generator).mp built
  exact ⟨rfl, rfl, rfl, select, all, conditions, rfl, rfl, rfl⟩

theorem Query.parsed_scanGenerator
    {query : Query}
    {generator : ScanGenerator}
    (built : query.scanGenerator = some generator) :
    generator.Parsed := by
  have parts := Query.builtFrom built
  constructor
  · intro column member
    rw [parts.selectColumns_eq] at member
    exact underscore_notMem_selectColumn member
  · intro aggregate member
    obtain ⟨text, -, read⟩ := exists_entry_of_mem parts.allAggregates_eq member
    exact Aggregate.underscore_notMem_func_tail read

/-! ## A running example -/

/-- A query over customers and quantities: per customer, the number of sales
and the sum of the quantities above five. -/
def saleQuery (emf : Bool) : Query where
  columns := [⟨"cust", .varchar⟩, ⟨"quant", .int⟩]
  selectAttribute := ["cust", "1_sum_quant"]
  noGroupingVars := 1
  groupingAttr := ["cust"]
  fVect := ["count_quant", "1_sum_quant"]
  selectCondVect := ["1.quant>5"]
  having := "count_quant > 1"
  emf := emf

/-- Its scan generator. -/
def saleGenerator (emf : Bool) : ScanGenerator where
  noGroupingVars := 1
  columns := [⟨"cust", .varchar⟩, ⟨"quant", .int⟩]
  selectColumns := ["cust"]
  selectAggregates := [⟨1, "sum", "quant"⟩]
  allAggregates := [⟨0, "count", "quant"⟩, ⟨1, "sum", "quant"⟩]
  selectConditions := [⟨[⟨1, "quant", ">", "5"⟩], []⟩]
  having := "count_quant > 1"
  groupingAttr := ["cust"]
  emf := emf

theorem scanGenerator_saleQuery (emf : Bool) :
    (saleQuery emf).scanGenerator = some (saleGenerator emf) := by
  cases emf <;> rfl

end MfQuery
