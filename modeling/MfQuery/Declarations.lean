import MfQuery.Query

/-!
# Declared types

The type of a key column is written into the header and the program four
times, by generators that look it up independently. The group structures and
`sales` take the column with exactly the attribute's name; `mf_structure` and
the parameters of `vfind<i>` take the first column whose name occurs inside
it.
-/

namespace MfQuery

open Text

/-! ## Looking up columns -/

theorem columnNamed_eq
    {columns : List Column}
    (distinct : (columns.map Column.name).Nodup)
    {column : Column}
    (inTable : column ∈ columns) :
    columnNamed column.name columns = some column := by
  induction columns with
  | nil => cases inTable
  | cons first columns inductionHypothesis =>
      rw [List.map_cons, List.nodup_cons] at distinct
      rcases List.mem_cons.mp inTable with rfl | later
      · simp [columnNamed]
      · have different : column.name ≠ first.name := by
          intro equal
          exact distinct.1 (equal ▸ List.mem_map_of_mem later)
        have found := inductionHypothesis distinct.2 later
        unfold columnNamed at found ⊢
        rw [List.find?_cons_of_neg (by simpa using different)]
        exact found

/-- Some column name occurs inside the name of a column. -/
theorem exists_columnInside
    {columns : List Column}
    {column : Column}
    (inTable : column ∈ columns) :
    ∃ first ∈ columns, columnInside column.name columns = some first := by
  cases found : columnInside column.name columns with
  | none =>
      have absent := List.find?_eq_none.mp found column inTable
      exact absurd ((contains_eq_true _ _).mpr (List.infix_refl column.name)) absent
  | some first => exact ⟨first, List.mem_of_find?_eq_some found, rfl⟩

/-! ## Key columns -/

/-- Types mapped to `string`, `int64_t`, `float` or `double`. -/
def SqlType.isMapped (type : SqlType) : Bool :=
  decide (type.getOutCppType = "string".toList) || decide (type.getOutCppType = "int64_t".toList) ||
    decide (type.getOutCppType = "float".toList) || decide (type.getOutCppType = "double".toList)

/-- Mapped types have the same C++ type by both type codes. -/
theorem SqlType.getOutCppType_getCppType
    {type : SqlType}
    (mapped : type.isMapped = true) :
    type.getCppType.getOutCppType = type.getOutCppType := by
  cases type <;> first | rfl | exact absurd mapped (by decide)

/-- The name is declared among the fields, and only with the type. -/
def DeclaredIn (fields : List Field) (name type : Text) : Prop :=
  (∃ field ∈ fields, field.name = name) ∧ ∀ field ∈ fields, field.name = name → field.type = type

/-- Parameters of `vfind<i>`. -/
def parameterFields (cols : List Ct) : List Field :=
  cols.map fun col => ⟨col.type.getOutCppType, col.name⟩

/-- The name has the type in `mf_structure`, in every group structure, in
`sales` and as a parameter of the lookups. -/
structure DeclaredAs
    (query : Query)
    (generator : ScanGenerator)
    (mfFields : List Field)
    (cols : List Ct)
    (name type : Text) : Prop where
  mf_structure : DeclaredIn mfFields name type
  group : ∀ i ≤ query.noGroupingVars,
    DeclaredIn (groupFields i query.columns generator.selectColumns generator.allAggregates)
      name type
  sales : DeclaredIn (salesFields query.columns) name type
  parameter : DeclaredIn (parameterFields cols) name type

section KeyTypes

variable {columns : List Column} {column : Column}

/-- A field of `mf_structure` with the name of a plain column. -/
theorem mfField_plain
    {name : Text}
    (plain : '_' ∉ name)
    (columns : List Column) :
    mfField columns name = some ⟨outTypeOf (columnInside name columns), name⟩ := by
  have notAggregate : ¬Aggregate.isAggregate name = true := by simpa using plain
  rw [mfField, if_neg notAggregate]

theorem mfField_name
    {entry : Text}
    {field : Field}
    (declared : mfField columns entry = some field)
    (plain : '_' ∉ field.name) :
    field.name = entry := by
  unfold mfField at declared
  split_ifs at declared
  · obtain ⟨aggregate, -, rfl⟩ := Option.map_eq_some_iff.mp declared
    exact absurd (Aggregate.underscore_mem_toABSVar aggregate) plain
  · cases declared
    rfl

/-- A field of a group structure with the name of a plain column. -/
theorem groupField_name
    {i : Nat}
    {selectColumns : List Text}
    {allAggregates : List Aggregate}
    {field : Field}
    (member : field ∈ groupFields i columns selectColumns allAggregates)
    (plain : '_' ∉ field.name) :
    field = grouperField columns field.name := by
  rcases List.mem_append.mp member with inColumns | inAggregates
  · obtain ⟨name, -, rfl⟩ := List.mem_map.mp inColumns
    rfl
  · obtain ⟨aggregate, -, rfl⟩ := List.mem_map.mp inAggregates
    exact absurd (Aggregate.underscore_mem_toVar aggregate) plain

theorem eq_of_name_eq
    (distinct : (columns.map Column.name).Nodup)
    (inTable : column ∈ columns)
    {other : Column}
    (otherInTable : other ∈ columns)
    (same : other.name = column.name) :
    other = column := by
  have found := columnNamed_eq distinct inTable
  rw [← same, columnNamed_eq distinct otherInTable] at found
  exact Option.some.inj found

end KeyTypes

section Declared

variable {query : Query} {column : Column}

/-- Declarations of a plain column in `mf_structure` have the type of the first
column whose name occurs inside it. -/
theorem declaredIn_mfFields_iff
    {fields : List Field}
    (declared : mfFields query.selectAttribute query.columns = some fields)
    (selected : column.name ∈ getSelectColumns query.selectAttribute)
    (type : Text) :
    DeclaredIn fields column.name type ↔
      outTypeOf (columnInside column.name query.columns) = type := by
  have plain : '_' ∉ column.name := underscore_notMem_selectColumn selected
  have inSelect : column.name ∈ query.selectAttribute := List.mem_of_mem_filter selected
  obtain ⟨own, ownMember, isOwn⟩ := exists_result_of_mem declared inSelect
  rw [mfField_plain plain, Option.some.injEq] at isOwn
  constructor
  · rintro ⟨-, onlyAs⟩
    have ownType := onlyAs own ownMember (by rw [← isOwn])
    rw [← isOwn] at ownType
    exact ownType
  · intro isType
    refine ⟨⟨own, ownMember, by rw [← isOwn]⟩, ?_⟩
    intro field member named
    obtain ⟨entry, -, isField⟩ := exists_entry_of_mem declared member
    have isName : field.name = entry := mfField_name isField (named ▸ plain)
    rw [← isName, named, mfField_plain plain, Option.some.injEq] at isField
    rw [← isField]
    exact isType

theorem declaredIn_groupFields
    (distinct : (query.columns.map Column.name).Nodup)
    (inTable : column ∈ query.columns)
    (selected : column.name ∈ getSelectColumns query.selectAttribute)
    (i : Nat)
    (allAggregates : List Aggregate) :
    DeclaredIn
      (groupFields i query.columns (getSelectColumns query.selectAttribute) allAggregates)
      column.name column.type.getOutCppType := by
  have plain : '_' ∉ column.name := underscore_notMem_selectColumn selected
  constructor
  · refine ⟨grouperField query.columns column.name, ?_, rfl⟩
    exact List.mem_append_left _ (List.mem_map_of_mem selected)
  · intro field member named
    rw [groupField_name member (named ▸ plain), named, grouperField,
      columnNamed_eq distinct inTable]
    rfl

theorem declaredIn_salesFields
    (distinct : (query.columns.map Column.name).Nodup)
    (inTable : column ∈ query.columns) :
    DeclaredIn (salesFields query.columns) column.name column.type.getOutCppType := by
  constructor
  · exact ⟨_, List.mem_map_of_mem inTable, rfl⟩
  · intro field member named
    obtain ⟨other, otherInTable, rfl⟩ := List.mem_map.mp member
    rw [eq_of_name_eq distinct inTable otherInTable named]

/-- A lookup's parameter has the type of the first column whose name occurs
inside it. -/
theorem declaredIn_parameterFields
    {cols : List Ct}
    {first : Column}
    (parameters : getCt query.groupingAttr query.columns = some cols)
    (isKey : column.name ∈ query.groupingAttr)
    (found : columnInside column.name query.columns = some first)
    (mapped : first.type.isMapped = true) :
    DeclaredIn (parameterFields cols) column.name first.type.getOutCppType := by
  constructor
  · obtain ⟨col, member, isCol⟩ := exists_result_of_mem parameters isKey
    obtain ⟨_, _, rfl⟩ := getCtEntry_eq_some isCol
    exact ⟨_, List.mem_map_of_mem member, rfl⟩
  · intro field member named
    obtain ⟨col, colMember, rfl⟩ := List.mem_map.mp member
    obtain ⟨entry, -, isCol⟩ := exists_entry_of_mem parameters colMember
    obtain ⟨inside, foundInside, rfl⟩ := getCtEntry_eq_some isCol
    have entryName : entry = column.name := named
    rw [entryName, found, Option.some.injEq] at foundInside
    rw [← foundInside, Column.ctype]
    exact SqlType.getOutCppType_getCppType mapped

end Declared

/-- All declarations of a key column have the type of the column with its name
exactly when the first column whose name occurs inside it has that type. -/
theorem key_types_agree_iff
    (query : Query)
    (generator : ScanGenerator)
    (fields : List Field)
    (cols : List Ct)
    (column : Column)
    (built : query.scanGenerator = some generator)
    (declared : mfFields query.selectAttribute query.columns = some fields)
    (parameters : getCt query.groupingAttr query.columns = some cols)
    (distinct : (query.columns.map Column.name).Nodup)
    (mapped : ∀ other ∈ query.columns, other.type.isMapped = true)
    (inTable : column ∈ query.columns)
    (selected : column.name ∈ getSelectColumns query.selectAttribute)
    (isKey : column.name ∈ query.groupingAttr) :
    DeclaredAs query generator fields cols column.name column.type.getOutCppType ↔
      ∃ first, columnInside column.name query.columns = some first ∧
        first.type.getOutCppType = column.type.getOutCppType := by
  obtain ⟨first, firstInTable, found⟩ := exists_columnInside inTable
  have inMf := declaredIn_mfFields_iff declared selected column.type.getOutCppType
  rw [found] at inMf
  constructor
  · intro agree
    exact ⟨first, found, inMf.mp agree.mf_structure⟩
  · rintro ⟨first', found', sameType⟩
    obtain rfl : first = first' := Option.some.inj (found.symm.trans found')
    obtain ⟨allAggregates, _, _, -, -, -, rfl⟩ :=
      (query.scanGenerator_eq_some_iff generator).mp built
    constructor
    · exact inMf.mpr sameType
    · intro i _
      exact declaredIn_groupFields distinct inTable selected i allAggregates
    · exact declaredIn_salesFields distinct inTable
    · rw [← sameType]
      exact declaredIn_parameterFields parameters isKey found (mapped first firstInTable)

/-- A table in which one column name occurs inside the next. -/
def customerColumns : List Column := [⟨"cust", .varchar⟩, ⟨"custid", .int⟩]

/-- A query that groups by a key column. -/
def groupedBy (columns : List Column) (key : Text) : Query where
  columns := columns
  selectAttribute := [key]
  noGroupingVars := 0
  groupingAttr := [key]
  fVect := ["count_cust"]
  selectCondVect := []
  having := []
  emf := false

/-- The key `cust` is declared a string everywhere. -/
theorem key_types_agree_iff_cust :
    ∃ generator, (groupedBy customerColumns "cust").scanGenerator = some generator ∧
      DeclaredAs (groupedBy customerColumns "cust") generator [⟨"string", "cust"⟩]
        [⟨"cust", .string⟩] "cust" "string" := by
  obtain ⟨generator, built⟩ := Option.isSome_iff_exists.mp
    (by rfl : (groupedBy customerColumns "cust").scanGenerator.isSome = true)
  refine ⟨generator, built, ?_⟩
  exact (key_types_agree_iff (groupedBy customerColumns "cust") generator [⟨"string", "cust"⟩]
    [⟨"cust", .string⟩] ⟨"cust", .varchar⟩ built rfl rfl (by decide) (by decide) (by decide)
    (by decide) (by decide)).mpr ⟨⟨"cust", .varchar⟩, by decide, rfl⟩

/-- The integer key `custid` is declared a string in `mf_structure` and as a
parameter, because `cust` occurs inside it. -/
theorem key_declared_with_two_types :
    mfFields ["custid"] customerColumns = some [⟨"string", "custid"⟩] ∧
      grouperField customerColumns "custid" = ⟨"int64_t", "custid"⟩ ∧
      getCt ["custid"] customerColumns = some [⟨"custid", .string⟩] := by
  decide

end MfQuery
