import MfQuery.Program.Accumulation

/-!
# Group zero in the two modes

An MF program finds the record of a scanned row by its key. An EMF program
runs through all pairs of a kept row and a table row and relies on the guard
to pick the rows of a group; the guard of group zero is constantly true, so
every kept row accumulates the whole table.
-/

namespace MfQuery

open Text

/-- What scan zero selects for a kept row. -/
theorem filter_selects_zero
    (guards : Guards)
    (generator : ScanGenerator)
    (table : List Row)
    (group : Nat → List Record)
    (kept : Row) :
    table.filter (guards.selects generator group 0 kept) =
      if generator.emf then table
      else table.filter fun row =>
        decide (keyOf generator.groupingAttr row = keyOf generator.groupingAttr kept) := by
  unfold Guards.selects keySelects
  cases generator.emf with
  | true => simp [guards.zero]
  | false => simp [guards.zero]

/-- Under either program every record of group zero holds, for each of its
aggregates, the fold over the rows scan zero selects. -/
theorem zero_field
    {guards : Guards}
    {generator : ScanGenerator}
    {table : List Row}
    {store : Store}
    (parsed : generator.Parsed)
    (distinct : generator.allAggregates.Nodup)
    (scanned : Scanned guards generator table store)
    {aggregate : Aggregate}
    (inF : aggregate ∈ generator.allAggregates)
    (inGroup : aggregate.group = 0)
    (known : aggregate.update ≠ .none)
    {row : Row}
    (member : row ∈ table) :
    ∃ record, (store.group 0)[keyIndex (keyOf generator.groupingAttr) store.uniques
        (keyOf generator.groupingAttr row)]? = some record ∧
      record aggregate.toVar =
        (if generator.emf then table
          else table.filter fun other => decide
            (keyOf generator.groupingAttr other = keyOf generator.groupingAttr row)).foldl
          aggregate.fieldStep .zero := by
  obtain ⟨kept, atIndex, keptKey⟩ :=
    FirstOccurrence.exists_getElem?_keyIndex (keyOf generator.groupingAttr)
      (List.mem_map_of_mem member)
  have inZero : aggregate.group = ((0 : Nat) : Int) := inGroup
  have inBucket : aggregate ∈ generator.bucket 0 :=
    List.mem_filter.mpr ⟨inF, decide_eq_true inZero⟩
  rw [scanned.uniques_eq, scanned.groups 0 (Nat.zero_le _), List.getElem?_map, atIndex]
  refine ⟨_, rfl, ?_⟩
  rw [finalRecord_toVar parsed distinct inBucket (parsed.ownField inZero known),
    filter_selects_zero, keptKey]

/-- The same query in one of the modes. -/
def Query.inMode (query : Query) (emf : Bool) : Query := { query with emf := emf }

/-- On a table both programs complete and leave in every record of group zero
the same value for every aggregate: the one over the rows of the record's
key. -/
def ZeroModesAgree
    (groupingAttr : List Text)
    (aggregates : List Aggregate)
    (mfProgram emfProgram : Program)
    (interp : Interp)
    (table : List Row) : Prop :=
  ∃ mfFinal emfFinal, mfProgram.runScans interp table = some mfFinal ∧
    emfProgram.runScans interp table = some emfFinal ∧
    ∀ aggregate ∈ aggregates, aggregate.group = 0 → ∀ row ∈ table,
      let p := keyIndex (keyOf groupingAttr) mfFinal.store.uniques (keyOf groupingAttr row)
      ∃ mfRecord emfRecord, (mfFinal.store.group 0)[p]? = some mfRecord ∧
        (emfFinal.store.group 0)[p]? = some emfRecord ∧
        emfRecord aggregate.toVar = mfRecord aggregate.toVar ∧
        mfRecord aggregate.toVar = (table.filter fun other =>
          decide (keyOf groupingAttr other = keyOf groupingAttr row)).foldl
            aggregate.fieldStep .zero

/-- What the two programs of one query have in common. -/
structure BothModes
    (query : Query)
    (mf emf : ScanGenerator)
    (mfProgram emfProgram : Program) : Prop where
  mf_built : (query.inMode false).scanGenerator = some mf
  emf_built : (query.inMode true).scanGenerator = some emf
  mf_compiled : mf.program = some mfProgram
  emf_compiled : emf.program = some emfProgram

theorem BothModes.emf_eq
    {query : Query}
    {mf emf : ScanGenerator}
    {mfProgram emfProgram : Program}
    (both : BothModes query mf emf mfProgram emfProgram) :
    mf.emf = false ∧ emf = { mf with emf := true } := by
  obtain ⟨all, select, conditions, allRead, selectRead, conditionsRead, rfl⟩ :=
    (Query.scanGenerator_eq_some_iff _ mf).mp both.mf_built
  obtain ⟨all', select', conditions', allRead', selectRead', conditionsRead', rfl⟩ :=
    (Query.scanGenerator_eq_some_iff _ emf).mp both.emf_built
  have sameAll : all = all' := Option.some.inj (allRead.symm.trans allRead')
  have sameSelect : select = select' := Option.some.inj (selectRead.symm.trans selectRead')
  have sameConditions : conditions = conditions' :=
    Option.some.inj (conditionsRead.symm.trans conditionsRead')
  subst sameAll sameSelect sameConditions
  exact ⟨rfl, rfl⟩

/-- The modes agree on a table exactly when every aggregate of group zero has
one value over the whole table and over the rows of every key. -/
theorem zeroModesAgree_iff
    {query : Query}
    {mf emf : ScanGenerator}
    {mfProgram emfProgram : Program}
    (both : BothModes query mf emf mfProgram emfProgram)
    {cols : List Ct}
    {table : List Row}
    (keyedBy : query.KeyedBy cols table)
    (few : FewKeys query.groupingAttr table)
    (distinct : mf.allAggregates.Nodup)
    (known : ∀ aggregate ∈ mf.allAggregates, aggregate.group = 0 → aggregate.update ≠ .none)
    (guards : Guards) :
    ZeroModesAgree query.groupingAttr mf.allAggregates mfProgram emfProgram
        (guards.interp cols) table ↔
      ∀ aggregate ∈ mf.allAggregates, aggregate.group = 0 → ∀ row ∈ table,
        table.foldl aggregate.fieldStep .zero =
          (table.filter fun other => decide
            (keyOf query.groupingAttr other = keyOf query.groupingAttr row)).foldl
              aggregate.fieldStep .zero := by
  obtain ⟨mfMode, emfEq⟩ := both.emf_eq
  have mfKeyedBy : (query.inMode false).KeyedBy cols table :=
    ⟨keyedBy.key_types, keyedBy.typed, keyedBy.plain⟩
  have mfKeyed : Keyed mf (guards.interp cols).cols table := mfKeyedBy.keyed both.mf_built
  have emfKeyedBy : (query.inMode true).KeyedBy cols table :=
    ⟨keyedBy.key_types, keyedBy.typed, keyedBy.plain⟩
  have emfKeyed : Keyed emf (guards.interp cols).cols table := emfKeyedBy.keyed both.emf_built
  have attributes : mf.groupingAttr = query.groupingAttr :=
    (Query.builtFrom both.mf_built).groupingAttr_eq
  have mfFew : FewKeys mf.groupingAttr table := attributes ▸ few
  subst emfEq
  obtain ⟨mfFinal, mfRun, mfScanned⟩ := runScans_scanned mfKeyed mfFew
    (guards.meantBy_interp cols mf table) (ScanGenerator.compiled_of_program both.mf_compiled)
  obtain ⟨emfFinal, emfRun, emfScanned⟩ := runScans_scanned emfKeyed mfFew
    (guards.meantBy_interp cols _ table) (ScanGenerator.compiled_of_program both.emf_compiled)
  have sameUniques : emfFinal.store.uniques = mfFinal.store.uniques := by
    rw [emfScanned.uniques_eq, mfScanned.uniques_eq]
  -- both fields at the position of a row's key
  have fields : ∀ aggregate ∈ mf.allAggregates, aggregate.group = 0 → ∀ row ∈ table,
      ∃ mfRecord emfRecord,
        (mfFinal.store.group 0)[keyIndex (keyOf query.groupingAttr) mfFinal.store.uniques
          (keyOf query.groupingAttr row)]? = some mfRecord ∧
        (emfFinal.store.group 0)[keyIndex (keyOf query.groupingAttr) mfFinal.store.uniques
          (keyOf query.groupingAttr row)]? = some emfRecord ∧
        mfRecord aggregate.toVar = (table.filter fun other =>
          decide (keyOf query.groupingAttr other = keyOf query.groupingAttr row)).foldl
            aggregate.fieldStep .zero ∧
        emfRecord aggregate.toVar = table.foldl aggregate.fieldStep .zero := by
    intro aggregate inF inGroup row member
    have isKnown := known aggregate inF inGroup
    obtain ⟨mfRecord, mfAt, mfField⟩ :=
      zero_field mfKeyed.parsed distinct mfScanned inF inGroup isKnown member
    obtain ⟨emfRecord, emfAt, emfField⟩ :=
      zero_field emfKeyed.parsed distinct emfScanned inF inGroup isKnown member
    rw [mfMode, attributes] at mfField
    rw [attributes] at mfAt
    rw [sameUniques, attributes] at emfAt
    exact ⟨mfRecord, emfRecord, mfAt, emfAt, mfField, emfField⟩
  constructor
  · rintro ⟨mfOther, emfOther, mfOtherRun, emfOtherRun, agree⟩ aggregate inF inGroup row member
    obtain rfl : mfFinal = mfOther := Option.some.inj (mfRun.symm.trans mfOtherRun)
    obtain rfl : emfFinal = emfOther := Option.some.inj (emfRun.symm.trans emfOtherRun)
    obtain ⟨mfRecord, emfRecord, mfAt, emfAt, mfField, emfField⟩ :=
      fields aggregate inF inGroup row member
    obtain ⟨mfRecord', emfRecord', mfAt', emfAt', same, -⟩ := agree aggregate inF inGroup row member
    obtain rfl : mfRecord = mfRecord' := Option.some.inj (mfAt.symm.trans mfAt')
    obtain rfl : emfRecord = emfRecord' := Option.some.inj (emfAt.symm.trans emfAt')
    rw [← emfField, ← mfField, same]
  · intro equal
    refine ⟨mfFinal, emfFinal, mfRun, emfRun, fun aggregate inF inGroup row member => ?_⟩
    obtain ⟨mfRecord, emfRecord, mfAt, emfAt, mfField, emfField⟩ :=
      fields aggregate inF inGroup row member
    refine ⟨mfRecord, emfRecord, mfAt, emfAt, ?_, mfField⟩
    rw [emfField, mfField, equal aggregate inF inGroup row member]

/-! ## Tables with two keys -/

/-- A row with the same content in all string keys and the same number in all
other columns. -/
def uniformRow (cols : List Ct) (text : Text) (number : Int) : Row := fun field =>
  if cols.any fun col => decide (col.name = field ∧ col.type = .string) then .str text
  else .int number

theorem uniformRow_string
    {cols : List Ct}
    {col : Ct}
    (member : col ∈ cols)
    (type : col.type = .string)
    (text : Text)
    (number : Int) :
    uniformRow cols text number col.name = .str text := by
  unfold uniformRow
  rw [if_pos]
  exact List.any_eq_true.mpr ⟨col, member, decide_eq_true ⟨rfl, type⟩⟩

theorem uniformRow_int
    {cols : List Ct}
    {field : Text}
    (notString : ∀ col ∈ cols, col.name = field → col.type = .int64)
    (text : Text)
    (number : Int) :
    uniformRow cols text number field = .int number := by
  unfold uniformRow
  rw [if_neg]
  intro found
  obtain ⟨col, member, same⟩ := List.any_eq_true.mp found
  obtain ⟨name, type⟩ := of_decide_eq_true same
  rw [notString col member name] at type
  cases type

/-- Key columns of one name have one type. -/
theorem type_eq_of_name_eq
    {attributes : List Text}
    {columns : List Column}
    {cols : List Ct}
    (found : getCt attributes columns = some cols)
    {left right : Ct}
    (inLeft : left ∈ cols)
    (inRight : right ∈ cols)
    (sameName : left.name = right.name) :
    left = right := by
  have leftEntry := eq_of_mem_getCt found inLeft
  have rightEntry := eq_of_mem_getCt found inRight
  rw [sameName, rightEntry] at leftEntry
  exact (Option.some.inj leftEntry).symm

/-- Uniform rows conform to the key types. -/
theorem keyTyped_uniformRows
    {attributes : List Text}
    {columns : List Column}
    {cols : List Ct}
    (found : getCt attributes columns = some cols)
    (comparable : ∀ col ∈ cols, col.type = .string ∨ col.type = .int64)
    {rows : List Row}
    (uniform : ∀ row ∈ rows, ∃ text number, row = uniformRow cols text number) :
    KeyTyped cols rows := by
  intro col member
  refine ⟨comparable col member, fun row inside => ?_⟩
  obtain ⟨text, number, rfl⟩ := uniform row inside
  rcases comparable col member with type | type
  · rw [uniformRow_string member type, type]
    exact ⟨text, rfl⟩
  · rw [uniformRow_int (fun other inCols same => by
      rw [type_eq_of_name_eq found inCols member same, type]), type]
    exact ⟨number, rfl⟩

/-- Uniform rows of different content have different keys. -/
theorem keyOf_uniformRow_ne
    {attributes : List Text}
    {columns : List Column}
    {cols : List Ct}
    (found : getCt attributes columns = some cols)
    (comparable : ∀ col ∈ cols, col.type = .string ∨ col.type = .int64)
    (grouped : attributes ≠ [])
    {text text' : Text}
    {number number' : Int}
    (texts : text ≠ text')
    (numbers : number ≠ number') :
    keyOf attributes (uniformRow cols text number) ≠
      keyOf attributes (uniformRow cols text' number') := by
  have names := map_name_getCt found
  obtain ⟨attr, inside⟩ := List.exists_mem_of_ne_nil attributes grouped
  obtain ⟨col, member, rfl⟩ := List.mem_map.mp (names ▸ inside)
  intro equal
  have atCol : uniformRow cols text number col.name = uniformRow cols text' number' col.name :=
    List.map_inj_left.mp equal col.name inside
  rcases comparable col member with type | type
  · rw [uniformRow_string member type, uniformRow_string member type] at atCol
    exact texts (Value.str.inj atCol)
  · have notString : ∀ other ∈ cols, other.name = col.name → other.type = .int64 := by
      intro other inCols same
      rw [type_eq_of_name_eq found inCols member same, type]
    rw [uniformRow_int notString, uniformRow_int notString] at atCol
    exact numbers (Value.int.inj atCol)

/-- Numbers whose second one changes every aggregate of the first: negative
ones for `min`, since the field starts at zero. -/
def separatingSign (aggregate : Aggregate) : Int :=
  if aggregate.update = .min then -1 else 1

theorem fieldStep_separates
    {aggregate : Aggregate}
    (known : aggregate.update ≠ .none)
    {first second : Row}
    (firstInt : aggregate.update ≠ .count →
      first aggregate.column = .int (separatingSign aggregate))
    (secondInt : aggregate.update ≠ .count →
      second aggregate.column = .int (3 * separatingSign aggregate)) :
    [first, second].foldl aggregate.fieldStep .zero ≠
      [first].foldl aggregate.fieldStep .zero := by
  simp only [List.foldl_cons, List.foldl_nil, Aggregate.fieldStep, separatingSign] at *
  cases update : aggregate.update with
  | none => exact absurd update known
  | count =>
      show (Value.zero.plus (.int 1)).plus (.int 1) ≠ Value.zero.plus (.int 1)
      decide
  | avg | sum | min | max =>
      simp only [update, ne_eq, reduceCtorEq, not_false_eq_true, forall_const, if_false,
        if_true] at firstInt secondInt
      rw [firstInt, secondInt]
      decide

/-! ## When the modes agree -/

theorem exists_bothModes_sale :
    ∃ mfProgram emfProgram, BothModes (saleQuery false) (saleGenerator false)
      (saleGenerator true) mfProgram emfProgram := by
  obtain ⟨mfProgram, mfCompiled⟩ := Option.isSome_iff_exists.mp
    (by rfl : ((saleGenerator false).program).isSome = true)
  obtain ⟨emfProgram, emfCompiled⟩ := Option.isSome_iff_exists.mp
    (by rfl : ((saleGenerator true).program).isSome = true)
  exact ⟨mfProgram, emfProgram, scanGenerator_saleQuery false, scanGenerator_saleQuery true,
    mfCompiled, emfCompiled⟩

end MfQuery
