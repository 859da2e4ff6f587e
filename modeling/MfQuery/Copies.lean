import MfQuery.Declarations
import MfQuery.Program.Updates
import MfQuery.Select

/-!
# Types of the copied aggregates

The last pass copies a selected aggregate from its group structure into
`mf_structure`. Two generators write down its type: `create_structures` takes
the first column whose name occurs anywhere in the select entry and turns
strings into integers, `create_grouping_var_structs` takes the first column
whose name occurs in the aggregate's column and makes an exception for
`count`.
-/

namespace MfQuery

open Text

/-- A text without underscores is no aggregate. -/
theorem Aggregate.underscore_mem_of_ofText
    {entry : Text}
    {aggregate : Aggregate}
    (read : Aggregate.ofText entry = some aggregate) :
    '_' ∈ entry := by
  by_contra plain
  have loop := cExplodeLoop_last '_' [] entry plain
  unfold Aggregate.ofText cExplode at read
  by_cases empty : entry = []
  · rw [if_pos empty] at read
    cases read
  · rw [if_neg empty, loop] at read
    split_ifs at read

/-- Type of the first column whose name occurs inside a text. -/
def innerType (text : Text) (columns : List Column) : Text :=
  outTypeOf (columnInside text columns)

/-- Type of the column with exactly this name. -/
def exactType (name : Text) (columns : List Column) : Text :=
  outTypeOf (columnNamed name columns)

/-- Type of the field of an aggregate in its group structure. -/
def fieldType (isAvg : Bool) (type : Text) : Text :=
  if isAvg then "Average<" ++ type ++ ">" else type

theorem fieldType_injective (isAvg : Bool) : Function.Injective (fieldType isAvg) := by
  intro left right same
  cases isAvg with
  | true => exact List.append_cancel_left (List.append_cancel_right same)
  | false => exact same

theorem aggregateField_type (columns : List Column) (aggregate : Aggregate) :
    (aggregateField columns aggregate).type =
      fieldType aggregate.isAvg (if aggregate.func = "count".toList then "int64_t".toList else
        innerType aggregate.column columns) := rfl

/-- The last pass copies the aggregate of a select entry at this type: it is
declared with the type in `mf_structure`, and its field in the group structure
has the type, or is an `Average` of it. -/
structure CopiedAt
    (query : Query)
    (generator : ScanGenerator)
    (entry : Text)
    (aggregate : Aggregate)
    (type : Text) : Prop where
  mf_structure : ∃ fields, mfFields query.selectAttribute query.columns = some fields ∧
    mfField query.columns entry = some ⟨type, aggregate.toABSVar⟩ ∧
    ⟨type, aggregate.toABSVar⟩ ∈ fields
  group : DeclaredIn
    (groupFields aggregate.group.toNat query.columns generator.selectColumns
      generator.allAggregates)
    aggregate.toVar (fieldType aggregate.isAvg type)

/-- The type of an aggregate function over a column of this type. -/
def Func.ownType (func : Func) (columnType : Text) : Text :=
  if func = .count then "int64_t" else columnType

/-- The types found for a select entry and for its column fit the column's
own. -/
def Func.TypesFit (func : Func) (entryType foundType columnType : Text) : Prop :=
  if func = .count then entryType = "string".toList ∨ entryType = "int64_t".toList
  else foundType = columnType ∧ columnType ≠ "string".toList ∧
    (entryType = columnType ∨ entryType = "string".toList ∧ columnType = "int64_t".toList)

/-- What the type written into `mf_structure` has to be. -/
theorem Func.typesFit_iff
    (func : Func)
    (entryType foundType columnType : Text) :
    func.TypesFit entryType foundType columnType ↔
      (if entryType = "string".toList then "int64_t".toList else entryType) =
          func.ownType columnType ∧
        (if func = .count then "int64_t".toList else foundType) = func.ownType columnType := by
  unfold Func.TypesFit Func.ownType
  have different : "int64_t".toList ≠ "string".toList := by decide
  by_cases isCount : func = .count
  · simp only [if_pos isCount, and_true]
    by_cases isString : entryType = "string".toList
    · rw [if_pos isString]
      exact iff_of_true (.inl isString) rfl
    · rw [if_neg isString]
      exact or_iff_right isString
  · simp only [if_neg isCount]
    by_cases isString : entryType = "string".toList
    · simp only [if_pos isString]
      subst isString
      constructor
      · rintro ⟨found, notString, same | ⟨-, isInt⟩⟩
        · exact absurd same.symm notString
        · exact ⟨isInt.symm, found⟩
      · rintro ⟨isInt, found⟩
        exact ⟨found, isInt ▸ different, .inr ⟨rfl, isInt.symm⟩⟩
    · simp only [if_neg isString]
      constructor
      · rintro ⟨found, -, same | ⟨stringType, -⟩⟩
        · exact ⟨same, found⟩
        · exact absurd stringType isString
      · rintro ⟨same, found⟩
        exact ⟨found, same ▸ isString, .inl same⟩

section Copied

variable {query : Query} {generator : ScanGenerator} {entry : Text} {aggregate : Aggregate}

/-- The declaration of a select entry in `mf_structure`. -/
theorem mfField_aggregate
    (read : Aggregate.ofText entry = some aggregate)
    (columns : List Column) :
    mfField columns entry =
      some ⟨if innerType entry columns = "string".toList then "int64_t" else
        innerType entry columns, aggregate.toABSVar⟩ := by
  have isAggregate : Aggregate.isAggregate entry = true :=
    (Aggregate.isAggregate_eq_true entry).mpr (Aggregate.underscore_mem_of_ofText read)
  rw [mfField, if_pos isAggregate, read]
  rfl

/-- The field of an aggregate in its group structure is declared once. -/
theorem declaredIn_groupFields_iff
    (parsed : generator.Parsed)
    (inF : aggregate ∈ generator.allAggregates)
    (nonneg : 0 ≤ aggregate.group)
    (present : aggregate.func ≠ [])
    (plain : '_' ∉ aggregate.func)
    (columns : List Column)
    (type : Text) :
    DeclaredIn (groupFields aggregate.group.toNat columns generator.selectColumns
        generator.allAggregates) aggregate.toVar type ↔
      (aggregateField columns aggregate).type = type := by
  have isGroup : aggregate.group = (aggregate.group.toNat : Int) := by omega
  have member : aggregateField columns aggregate ∈ groupFields aggregate.group.toNat columns
      generator.selectColumns generator.allAggregates :=
    List.mem_append_right _ (List.mem_map_of_mem
      (List.mem_filter.mpr ⟨inF, decide_eq_true isGroup⟩))
  constructor
  · rintro ⟨-, onlyAs⟩
    exact onlyAs _ member rfl
  · rintro rfl
    refine ⟨⟨_, member, rfl⟩, ?_⟩
    intro field inStruct named
    rcases List.mem_append.mp inStruct with inColumns | inAggregates
    · obtain ⟨column, selected, rfl⟩ := List.mem_map.mp inColumns
      have isName : column = aggregate.toVar := named
      exact absurd (isName ▸ aggregate.underscore_mem_toVar) (parsed.plain_column column selected)
    · obtain ⟨other, inBucket, rfl⟩ := List.mem_map.mp inAggregates
      obtain ⟨otherInF, sameGroup⟩ := List.mem_filter.mp inBucket
      have same : aggregate = other := Aggregate.eq_of_toVar_eq plain present
        (parsed.func_tail other otherInF) (isGroup.trans (of_decide_eq_true sameGroup).symm)
        named.symm
      rw [same]

end Copied

/-- Where the select list is read, `mf_structure` is declared. -/
theorem exists_mfFields
    {query : Query}
    {generator : ScanGenerator}
    (built : query.scanGenerator = some generator) :
    ∃ fields, mfFields query.selectAttribute query.columns = some fields := by
  have select := (Query.builtFrom built).selectAggregates_eq
  apply exists_mapM_eq_some
  intro entry member
  by_cases isAggregate : Aggregate.isAggregate entry = true
  · obtain ⟨aggregate, -, read⟩ :=
      exists_result_of_mem select (List.mem_filter.mpr ⟨member, isAggregate⟩)
    exact ⟨_, mfField_aggregate read query.columns⟩
  · exact ⟨_, if_neg isAggregate⟩

/-- A selected aggregate is copied at its own type exactly when the types found
for its select entry and for its column fit that type. -/
theorem aggregate_copied_at_own_type_iff
    (query : Query)
    (out : Text × Text)
    (generator : ScanGenerator)
    (program : Program)
    (emits : query.Emits out generator program)
    (func : Func)
    (aggregate : Aggregate)
    (isFunc : aggregate.func = func.text .lower)
    (entry : Text)
    (selected : entry ∈ query.selectAttribute)
    (read : Aggregate.ofText entry = some aggregate)
    (inF : aggregate ∈ generator.allAggregates) :
    CopiedAt query generator entry aggregate
        (func.ownType (exactType aggregate.column query.columns)) ↔
      func.TypesFit (innerType entry query.columns) (innerType aggregate.column query.columns)
        (exactType aggregate.column query.columns) := by
  have parsed := Query.parsed_scanGenerator emits.built
  have compiled := ScanGenerator.compiled_of_program emits.isProgram
  have present : aggregate.func ≠ [] := by
    rw [isFunc]
    exact func.text_ne_nil .lower
  have plain : '_' ∉ aggregate.func := by
    rw [isFunc]
    exact func.underscore_notMem_text .lower
  have isCount : aggregate.func = "count".toList ↔ func = .count := by
    rw [isFunc]
    cases func <;> decide
  have mfType := mfField_aggregate read query.columns
  have groupType := declaredIn_groupFields_iff parsed inF (compiled.inRange aggregate inF).1
    present plain query.columns
  have declaredType : (aggregateField query.columns aggregate).type =
      fieldType aggregate.isAvg (if func = .count then "int64_t".toList else
        innerType aggregate.column query.columns) := by
    rw [aggregateField_type]
    by_cases counts : func = .count
    · rw [if_pos (isCount.mpr counts), if_pos counts]
    · rw [if_neg (mt isCount.mp counts), if_neg counts]
  rw [Func.typesFit_iff]
  constructor
  · rintro ⟨⟨fields, -, isField, -⟩, inGroup⟩
    rw [mfType, Option.some.injEq, Field.mk.injEq] at isField
    refine ⟨isField.1, ?_⟩
    have sameType := (groupType _).mp inGroup
    rw [declaredType] at sameType
    exact fieldType_injective _ sameType
  · rintro ⟨isMf, isGroup⟩
    obtain ⟨fields, declared⟩ := exists_mfFields emits.built
    rw [isMf] at mfType
    obtain ⟨field, member, isField⟩ := exists_result_of_mem declared selected
    rw [mfType, Option.some.injEq] at isField
    refine ⟨⟨fields, declared, mfType, isField ▸ member⟩, ?_⟩
    rw [groupType, declaredType, isGroup]

/-- The sum of the quantities is copied as an integer. -/
theorem aggregate_copied_at_own_type_sum :
    ∃ out generator program, (saleQuery false).Emits out generator program ∧
      CopiedAt (saleQuery false) generator "1_sum_quant" ⟨1, "sum", "quant"⟩ "int64_t" := by
  obtain ⟨out, emitted⟩ := Option.isSome_iff_exists.mp
    (by rfl : (saleQuery false).compile.isSome = true)
  obtain ⟨generator, program, emits⟩ := Query.exists_emits emitted
  obtain rfl := Option.some.inj (emits.built.symm.trans (scanGenerator_saleQuery false))
  exact ⟨out, _, program, emits,
    (aggregate_copied_at_own_type_iff (saleQuery false) out _ program emits .sum
      ⟨1, "sum", "quant"⟩ rfl "1_sum_quant" (by decide) (by decide) (by decide)).mpr
      ⟨by decide, by decide, .inl (by decide)⟩⟩

/-- The sales query with the least customer instead of the sum. -/
def leastCustomerQuery : Query :=
  { saleQuery false with
    selectAttribute := ["cust", "1_min_cust"]
    fVect := ["count_quant", "1_min_cust"] }

/-- The least customer is a string in its group and an integer in
`mf_structure`. -/
theorem least_customer_copied_to_integer :
    ∃ out generator program, leastCustomerQuery.Emits out generator program ∧
      ⟨1, "min", "cust"⟩ ∈ generator.allAggregates ∧
      mfField leastCustomerQuery.columns "1_min_cust" = some ⟨"int64_t", "min_cust_1"⟩ ∧
      aggregateField leastCustomerQuery.columns ⟨1, "min", "cust"⟩ = ⟨"string", "min_cust"⟩ ∧
      ¬CopiedAt leastCustomerQuery generator "1_min_cust" ⟨1, "min", "cust"⟩ "string" := by
  obtain ⟨out, emitted⟩ := Option.isSome_iff_exists.mp
    (by rfl : leastCustomerQuery.compile.isSome = true)
  obtain ⟨generator, program, emits⟩ := Query.exists_emits emitted
  have isGenerator : leastCustomerQuery.scanGenerator =
      some { saleGenerator false with
        selectAggregates := [⟨1, "min", "cust"⟩]
        allAggregates := [⟨0, "count", "quant"⟩, ⟨1, "min", "cust"⟩] } := rfl
  obtain rfl := Option.some.inj (emits.built.symm.trans isGenerator)
  have declared : mfField leastCustomerQuery.columns "1_min_cust" =
      some ⟨"int64_t", "min_cust_1"⟩ := by decide
  refine ⟨out, _, program, emits, by decide, declared, by decide, ?_⟩
  rintro ⟨⟨fields, -, isField, -⟩, -⟩
  rw [declared] at isField
  exact absurd isField (by decide)

end MfQuery
