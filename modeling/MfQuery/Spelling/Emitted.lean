import MfQuery.Spelling.Written

/-!
# Emitted texts in upper and lower case

Every part of the texts emitted for a query in lower and in upper case is
either equal up to the spelling of the aggregate fields, or shorter in upper
case: two places look for the lower-case name only. The group structures
declare a lower-case count as an integer, and the aggregate branch of the
conditions reads a lower-case average through `value()`.
-/

namespace MfQuery

open Text

/-- The upper-case text is the lower-case one up to spelling when the condition
holds, and shorter otherwise. -/
abbrev CaseCompared (same : Prop) (lower upper : Text) : Prop :=
  fieldSpelling.Compared same lower upper

/-! ## Aggregates -/

namespace AggregateTerm

variable (term : AggregateTerm)

theorem respelled_toVar :
    Respelled (term.aggregate .lower).toVar (term.aggregate .upper).toVar := by
  have marked : Respelled _ _ := .of_name (term.func, term.column)
  simpa [Aggregate.toVar, aggregate, fieldSpelling] using marked

theorem respelled_text : Respelled (term.text .lower) (term.text .upper) := by
  have marked : Respelled _ _ := .of_name (term.func, term.column)
  have label : Respelled term.labelText term.labelText := by
    unfold labelText
    cases term.label with
    | none => exact .nil
    | some group => exact (Respelled.numeral group).append (Respelled.closed (by decide))
  exact label.append marked

theorem respelled_group (letterCase : LetterCase) :
    Respelled (itoa (term.aggregate letterCase).group)
      (itoa (term.aggregate letterCase).group) := by
  rw [aggregate, itoa_natCast]
  exact Respelled.numeral _

theorem respelled_toABSVar :
    Respelled (term.aggregate .lower).toABSVar (term.aggregate .upper).toABSVar := by
  have number := term.respelled_group .lower
  unfold Aggregate.toABSVar
  apply Spelling.Renamed.append term.respelled_toVar
  have sameGroup : (term.aggregate .upper).group = (term.aggregate .lower).group := rfl
  rw [sameGroup]
  split_ifs
  · exact Spelling.Renamed.append (Respelled.closed (by decide)) number
  · exact .nil

theorem respelled_place :
    Respelled (term.aggregate .lower).place (term.aggregate .upper).place := by
  have number := term.respelled_group .lower
  have sameGroup : (term.aggregate .upper).group = (term.aggregate .lower).group := rfl
  rw [Aggregate.place, Aggregate.place, sameGroup]
  exact (((Respelled.closed (by decide)).append number).append
    (Respelled.closed (by decide))).append term.respelled_toVar

/-- Averages are recognised in both cases. -/
theorem isAvg_eq : (term.aggregate .upper).isAvg = (term.aggregate .lower).isAvg := by
  cases shape : term.func <;> simp [Aggregate.isAvg, Aggregate.isFunc, aggregate, shape, Func.text]

theorem respelled_readText :
    Respelled (term.aggregate .lower).readText (term.aggregate .upper).readText := by
  rw [Aggregate.readText, Aggregate.readText, term.isAvg_eq]
  apply Spelling.Renamed.append term.respelled_place
  split_ifs
  · exact Respelled.closed (by decide)
  · exact .nil

/-- Both scans update an aggregate in the same way in both cases. -/
theorem update_eq : (term.aggregate .upper).update = (term.aggregate .lower).update := by
  cases shape : term.func <;> simp [Aggregate.update, Aggregate.isFunc, aggregate, shape, Func.text]

theorem respelled_updateText
    {var : Text}
    (row : Respelled var var)
    (column : Respelled term.column term.column) :
    Respelled ((term.aggregate .lower).updateText var)
      ((term.aggregate .upper).updateText var) := by
  have place := term.respelled_place
  have lowerColumn : (term.aggregate .lower).column = term.column := rfl
  have upperColumn : (term.aggregate .upper).column = term.column := rfl
  simp only [Aggregate.updateText, term.update_eq, lowerColumn, upperColumn]
  cases (term.aggregate .lower).update with
  | none => exact .nil
  | avg | sum | count | min | max =>
      repeat' with_reducible apply Spelling.Renamed.append
      all_goals first
        | exact place
        | exact row
        | exact column
        | exact Respelled.closed (by decide)

end AggregateTerm

/-! ## Declared types -/

section Declared

variable {cased : CasedQuery} (valid : cased.Valid)
include valid

/-- Inside a text that contains a name of the table, the type of a string or
integer column is found. -/
theorem CasedQuery.Valid.outTypeOf_columnInside
    {name text : Text}
    (inTable : ∃ column ∈ cased.columns, column.name = name)
    (inside : name <:+: text) :
    outTypeOf (columnInside text cased.columns) = "string".toList ∨
      outTypeOf (columnInside text cased.columns) = "int64_t".toList := by
  obtain ⟨column, member, rfl⟩ := inTable
  cases found : columnInside text cased.columns with
  | none =>
      have absent := List.find?_eq_none.mp found column member
      exact absurd ((contains_eq_true _ _).mpr inside) absent
  | some first => exact valid.types first (List.mem_of_find?_eq_some found)

/-- The type of a looked-up column is plain. -/
theorem CasedQuery.Valid.respelled_type
    {name text : Text}
    (inTable : ∃ column ∈ cased.columns, column.name = name)
    (inside : name <:+: text) :
    Respelled (outTypeOf (columnInside text cased.columns))
      (outTypeOf (columnInside text cased.columns)) := by
  rcases valid.outTypeOf_columnInside inTable inside with type | type
  · rw [type]
    exact Respelled.closed (by decide)
  · rw [type]
    exact Respelled.closed (by decide)

theorem CasedQuery.Valid.respelled_name
    {name : Text}
    (inTable : ∃ column ∈ cased.columns, column.name = name) :
    Respelled name name :=
  Respelled.plain (valid.underscore_notMem inTable)

/-- The field of `mf_structure` for an entry. -/
def SelectEntry.mfField
    (columns : List Column)
    (letterCase : LetterCase) : SelectEntry → Field
  | column name => ⟨outTypeOf (columnInside name columns), name⟩
  | aggregate term => ⟨"int64_t", (term.aggregate letterCase).toABSVar⟩

theorem CasedQuery.Valid.mfFields_eq (letterCase : LetterCase) :
    mfFields (cased.select.map (SelectEntry.text letterCase)) cased.columns =
      some (cased.select.map (SelectEntry.mfField cased.columns letterCase)) := by
  rw [mfFields, List.mapM_map]
  apply mapM_eq_some_map
  intro entry member
  have here := valid.select entry member
  cases entry with
  | column name =>
      have plain := valid.isAggregate_eq_false here
      simp [Function.comp, SelectEntry.text, mfField, plain, SelectEntry.mfField]
  | aggregate term =>
      have read := valid.ofText_term letterCase here
      have inside : term.column <:+: term.text letterCase := by
        refine ⟨term.labelText ++ (term.func.text letterCase ++ ['_']), [], ?_⟩
        simp [AggregateTerm.text]
      have translated : mfField cased.columns (term.text letterCase) =
          some (SelectEntry.mfField cased.columns letterCase (.aggregate term)) := by
        rw [mfField, if_pos (term.isAggregate_text letterCase), read]
        rcases valid.outTypeOf_columnInside here.column_mem inside with found | found
        · rw [found]
          rfl
        · rw [found]
          rfl
      exact translated

end Declared

theorem respelled_fieldText
    {type lower upper : Text}
    (plain : Respelled type type)
    (name : Respelled lower upper) :
    Respelled (Field.text ⟨type, lower⟩) (Field.text ⟨type, upper⟩) := by
  unfold Field.text
  repeat' with_reducible apply Spelling.Renamed.append
  all_goals first
    | exact plain
    | exact name
    | exact Respelled.closed (by decide)

/-! ## The header -/

section Header

variable {cased : CasedQuery} (valid : cased.Valid)
include valid

theorem CasedQuery.Valid.respelled_mfField
    {entry : SelectEntry}
    (member : entry ∈ cased.select) :
    Respelled (entry.mfField cased.columns .lower).text
      (entry.mfField cased.columns .upper).text := by
  have here := valid.select entry member
  cases entry with
  | column name =>
      exact respelled_fieldText (valid.respelled_type here (List.infix_refl name))
        (valid.respelled_name here)
  | aggregate term =>
      exact respelled_fieldText (Respelled.closed (by decide)) term.respelled_toABSVar

theorem CasedQuery.Valid.respelled_salesFields :
    Respelled ((salesFields cased.columns).flatMap Field.text)
      ((salesFields cased.columns).flatMap Field.text) := by
  apply Spelling.Renamed.flatMap
  intro field member
  obtain ⟨column, inTable, rfl⟩ := List.mem_map.mp member
  apply respelled_fieldText _ (valid.respelled_name ⟨column, inTable, rfl⟩)
  rcases valid.types column inTable with type | type
  · rw [type]
    exact Respelled.closed (by decide)
  · rw [type]
    exact Respelled.closed (by decide)

/-- The structures are equal up to spelling. -/
theorem CasedQuery.Valid.respelled_createStructures :
    ∃ lower upper,
      createStructures (cased.select.map (SelectEntry.text .lower)) cased.columns = some lower ∧
      createStructures (cased.select.map (SelectEntry.text .upper)) cased.columns = some upper ∧
      Respelled lower upper := by
  rw [createStructures, createStructures, valid.mfFields_eq, valid.mfFields_eq]
  refine ⟨_, _, rfl, rfl, ?_⟩
  have fields : Respelled
      ((cased.select.map (SelectEntry.mfField cased.columns .lower)).flatMap Field.text)
      ((cased.select.map (SelectEntry.mfField cased.columns .upper)).flatMap Field.text) := by
    rw [List.flatMap_map, List.flatMap_map]
    exact Spelling.Renamed.flatMap fun entry member => valid.respelled_mfField member
  have sales := valid.respelled_salesFields
  repeat' with_reducible apply Spelling.Renamed.append
  all_goals first
    | exact fields
    | exact sales
    | exact Respelled.closed (by decide)

/-- Declared as an integer whatever its case. -/
def AggregateTerm.CountFits (columns : List Column) (term : AggregateTerm) : Prop :=
  term.func = .count → outTypeOf (columnInside term.column columns) = "int64_t".toList

omit valid in
/-- An aggregate other than a lower-case count has the type of its column. -/
theorem AggregateTerm.aggregateField_eq
    (columns : List Column)
    {term : AggregateTerm}
    {letterCase : LetterCase}
    (differs : term.func ≠ .count ∨ letterCase = .upper) :
    aggregateField columns (term.aggregate letterCase) =
      ⟨if term.func = .avg then
          "Average<" ++ outTypeOf (columnInside term.column columns) ++ ">"
        else outTypeOf (columnInside term.column columns),
        (term.aggregate letterCase).toVar⟩ := by
  cases letterCase <;> cases shape : term.func <;>
    simp_all [aggregateField, AggregateTerm.aggregate, Aggregate.isAvg, Aggregate.isFunc, Func.text]

omit valid in
theorem AggregateTerm.aggregateField_count
    (columns : List Column)
    {term : AggregateTerm}
    (isCount : term.func = .count) :
    aggregateField columns (term.aggregate .lower) =
      ⟨"int64_t", (term.aggregate .lower).toVar⟩ := by
  simp [aggregateField, AggregateTerm.aggregate, Aggregate.isAvg, Aggregate.isFunc, Func.text,
    isCount]

theorem CasedQuery.Valid.compared_aggregateField
    {term : AggregateTerm}
    (termValid : term.Valid cased.columns cased.n) :
    CaseCompared (term.CountFits cased.columns)
      (aggregateField cased.columns (term.aggregate .lower)).text
      (aggregateField cased.columns (term.aggregate .upper)).text := by
  have found := valid.outTypeOf_columnInside termValid.column_mem (List.infix_refl term.column)
  have plain := valid.respelled_type termValid.column_mem (List.infix_refl term.column)
  have name := term.respelled_toVar
  rw [AggregateTerm.aggregateField_eq cased.columns (Or.inr rfl)]
  by_cases isCount : term.func = .count
  · have notAvg : term.func ≠ .avg := by
      rw [isCount]
      decide
    rw [AggregateTerm.aggregateField_count cased.columns isCount, if_neg notAvg]
    rcases found with string | int
    · -- A string column: `int64_t` in lower case, `string` in upper case.
      rw [string]
      constructor
      · intro fits
        have wrong := fits isCount
        rw [string] at wrong
        exact absurd wrong (by decide)
      · intro _
        simp only [Field.text, List.length_append, name.length_eq]
        have shorter : "string".toList.length < "int64_t".toList.length := by decide
        omega
    · rw [int]
      apply (Spelling.Compared.of_renamed
        (respelled_fieldText (Respelled.closed (by decide)) name)).congr
      simp [AggregateTerm.CountFits, int]
  · rw [AggregateTerm.aggregateField_eq cased.columns (Or.inl isCount)]
    apply (Spelling.Compared.of_renamed (respelled_fieldText _ name)).congr
    · simp [AggregateTerm.CountFits, isCount]
    · split_ifs
      · exact ((Respelled.closed (by decide)).append plain).append (Respelled.closed (by decide))
      · exact plain

omit valid in
theorem CasedQuery.bucket_eq
    (letterCase : LetterCase)
    (i : Nat) :
    (cased.fVect.map (AggregateTerm.aggregate letterCase)).filter
        (fun aggregate => aggregate.group = (i : Int)) =
      (cased.fVect.filter fun term => term.group = i).map (AggregateTerm.aggregate letterCase) := by
  rw [List.filter_map]
  congr 1
  apply List.filter_congr
  intro term _
  simp [Function.comp, AggregateTerm.aggregate]

theorem CasedQuery.Valid.respelled_grouperField
    {name : Text}
    (member : name ∈ cased.plainColumns) :
    Respelled (grouperField cased.columns name).text (grouperField cased.columns name).text := by
  obtain ⟨entry, inSelect, isColumn⟩ := List.mem_filterMap.mp member
  cases entry with
  | aggregate term => cases isColumn
  | column other =>
      cases isColumn
      have here := valid.select _ inSelect
      apply respelled_fieldText _ (valid.respelled_name here)
      obtain ⟨column, inTable, isName⟩ := here
      cases found : columnNamed name cased.columns with
      | none =>
          have absent := List.find?_eq_none.mp found column inTable
          simp [isName] at absent
      | some first =>
          rcases valid.types first (List.mem_of_find?_eq_some found) with type | type
          · rw [outTypeOf, type]
            exact Respelled.closed (by decide)
          · rw [outTypeOf, type]
            exact Respelled.closed (by decide)

theorem CasedQuery.Valid.compared_groupFields (i : Nat) :
    CaseCompared
      (∀ term ∈ cased.fVect.filter (fun term => term.group = i), term.CountFits cased.columns)
      ((groupFields i cased.columns cased.plainColumns
        (cased.fVect.map (AggregateTerm.aggregate .lower))).flatMap Field.text)
      ((groupFields i cased.columns cased.plainColumns
        (cased.fVect.map (AggregateTerm.aggregate .upper))).flatMap Field.text) := by
  have columns : Respelled
      (cased.plainColumns.flatMap fun name => (grouperField cased.columns name).text)
      (cased.plainColumns.flatMap fun name => (grouperField cased.columns name).text) :=
    Spelling.Renamed.flatMap fun name member => valid.respelled_grouperField member
  have aggregates : CaseCompared
      (∀ term ∈ cased.fVect.filter (fun term => term.group = i), term.CountFits cased.columns)
      ((cased.fVect.filter fun term => term.group = i).flatMap fun term =>
        (aggregateField cased.columns (term.aggregate .lower)).text)
      ((cased.fVect.filter fun term => term.group = i).flatMap fun term =>
        (aggregateField cased.columns (term.aggregate .upper)).text) := by
    apply Spelling.Compared.flatMap
    intro term member
    exact valid.compared_aggregateField (valid.fVect term (List.mem_of_mem_filter member))
  simp only [groupFields, cased.bucket_eq, List.flatMap_append, List.map_map, List.flatMap_map,
    Function.comp]
  apply ((Spelling.Compared.of_renamed columns).append aggregates).congr
  rw [true_and]

/-- The group structures differ exactly in counts of string columns. -/
theorem CasedQuery.Valid.compared_createGroupingVarStructs :
    CaseCompared (∀ term ∈ cased.fVect, term.CountFits cased.columns)
      (createGroupingVarStructs cased.n cased.columns cased.plainColumns
        (cased.fVect.map (AggregateTerm.aggregate .lower)))
      (createGroupingVarStructs cased.n cased.columns cased.plainColumns
        (cased.fVect.map (AggregateTerm.aggregate .upper))) := by
  have groups : CaseCompared (∀ i ∈ List.range (cased.n + 1),
      ∀ term ∈ cased.fVect.filter (fun term => term.group = i), term.CountFits cased.columns)
      (createGroupingVarStructs cased.n cased.columns cased.plainColumns
        (cased.fVect.map (AggregateTerm.aggregate .lower)))
      (createGroupingVarStructs cased.n cased.columns cased.plainColumns
        (cased.fVect.map (AggregateTerm.aggregate .upper))) := by
    apply Spelling.Compared.flatMap
    intro i _
    apply Spelling.Compared.between
    · repeat' with_reducible apply Spelling.Renamed.append
      all_goals first
        | exact Respelled.numeral i
        | exact Respelled.closed (by decide)
    · exact valid.compared_groupFields i
    · exact Respelled.closed (by decide)
  apply groups.congr
  constructor
  · intro fits term member
    have bound := (valid.fVect term member).group_le
    exact fits term.group (List.mem_range.mpr (by omega)) term
      (List.mem_filter.mpr ⟨member, by simp⟩)
  · intro fits i _ term member
    exact fits term (List.mem_of_mem_filter member)

end Header

end MfQuery
