import MfQuery.Query

/-!
# Names of fields

A select entry becomes a field of `mf_structure` under its own name or under
`toABSVar`, and an aggregate becomes a field of its group structure under
`toVar`. Different columns and aggregates get different fields.
-/

namespace MfQuery

open Text

namespace Aggregate

variable {left right : Aggregate}

/-- Equal names up to the first underscore have equal functions. -/
theorem func_eq_of_append_eq
    {leftFunc rightFunc leftRest rightRest : Text}
    (leftPlain : '_' ∉ leftFunc)
    (rightPlain : '_' ∉ rightFunc)
    (same : leftFunc ++ '_' :: leftRest = rightFunc ++ '_' :: rightRest) :
    leftFunc = rightFunc ∧ leftRest = rightRest := by
  have leftSplit := split_append leftPlain leftRest
  rw [same, split_append rightPlain rightRest] at leftSplit
  exact ⟨(congrArg Prod.fst leftSplit).symm, (congrArg Prod.snd leftSplit).symm⟩

/-- Behind the function and the column, `toABSVar` has the group. -/
def groupSuffix (aggregate : Aggregate) : Text :=
  if aggregate.group ≠ 0 then '_' :: itoa aggregate.group else []

theorem toABSVar_eq (aggregate : Aggregate) :
    aggregate.toABSVar =
      aggregate.func ++ '_' :: (aggregate.column ++ aggregate.groupSuffix) := by
  unfold toABSVar groupSuffix
  split_ifs <;> simp

/-- A column and a suffix are told apart by the first underscore. -/
theorem column_eq_of_suffix_eq
    (leftPlain : '_' ∉ left.column)
    (rightPlain : '_' ∉ right.column)
    (same : left.column ++ left.groupSuffix = right.column ++ right.groupSuffix) :
    left.column = right.column ∧ left.group = right.group := by
  unfold groupSuffix at same
  split_ifs at same with leftGroup rightGroup rightGroup
  · obtain ⟨columns, groups⟩ := func_eq_of_append_eq leftPlain rightPlain same
    exact ⟨columns, itoa_injective groups⟩
  · rw [List.append_nil] at same
    exact absurd (same ▸ List.mem_append_right _ (List.mem_cons_self ..)) rightPlain
  · rw [List.append_nil] at same
    exact absurd (same ▸ List.mem_append_right _ (List.mem_cons_self ..)) leftPlain
  · rw [List.append_nil, List.append_nil] at same
    exact ⟨same, (not_not.mp leftGroup).trans (not_not.mp rightGroup).symm⟩

/-- Different aggregates have different fields in `mf_structure`. -/
theorem toABSVar_injOn : Set.InjOn toABSVar {aggregate | aggregate.Writable} := by
  intro left leftWritable right rightWritable same
  rw [toABSVar_eq, toABSVar_eq] at same
  obtain ⟨funcs, rests⟩ :=
    func_eq_of_append_eq leftWritable.func_plain rightWritable.func_plain same
  obtain ⟨columns, groups⟩ :=
    column_eq_of_suffix_eq leftWritable.column_plain rightWritable.column_plain rests
  cases left
  cases right
  simp_all

/-- Different aggregates of a group have different fields in its structure. -/
theorem toVar_injOn (group : Int) :
    Set.InjOn toVar {aggregate | aggregate.Writable ∧ aggregate.group = group} := by
  rintro left ⟨leftWritable, leftGroup⟩ right ⟨rightWritable, rightGroup⟩ same
  apply eq_of_toVar_eq leftWritable.func_plain leftWritable.func_ne_nil _
    (leftGroup.trans rightGroup.symm) same
  exact fun member => rightWritable.func_plain (List.mem_of_mem_tail member)

theorem toABSVar_ne
    (aggregate : Aggregate)
    {name : Text}
    (plain : '_' ∉ name) :
    aggregate.toABSVar ≠ name := by
  rintro rfl
  exact plain aggregate.underscore_mem_toABSVar

end Aggregate

/-! ## Fields of a query -/

/-- The fields of `mf_structure` are the plain columns and the selected
aggregates. -/
theorem mfFields_names_perm
    {selectAttribute : List Text}
    {columns : List Column}
    {fields : List Field}
    {aggregates : List Aggregate}
    (declared : mfFields selectAttribute columns = some fields)
    (selected : getSelectAggregates selectAttribute = some aggregates) :
    (fields.map Field.name).Perm
      (getSelectColumns selectAttribute ++ aggregates.map Aggregate.toABSVar) := by
  unfold mfFields at declared
  unfold getSelectAggregates at selected
  unfold getSelectColumns
  induction selectAttribute generalizing fields aggregates with
  | nil =>
      cases declared
      cases selected
      exact List.Perm.refl _
  | cons entry selectAttribute inductionHypothesis =>
      simp only [List.mapM_cons, Option.bind_eq_bind, Option.bind_eq_some_iff, Option.pure_def,
        Option.some.injEq] at declared
      obtain ⟨field, isField, fields, later, rfl⟩ := declared
      by_cases isAggregate : Aggregate.isAggregate entry = true
      · rw [List.filter_cons_of_pos isAggregate] at selected
        simp only [List.mapM_cons, Option.bind_eq_bind, Option.bind_eq_some_iff, Option.pure_def,
          Option.some.injEq] at selected
        obtain ⟨aggregate, read, aggregates, others, rfl⟩ := selected
        have name : field.name = aggregate.toABSVar := by
          rw [mfField, if_pos isAggregate, read, Option.map_some, Option.some.injEq] at isField
          rw [← isField]
        rw [List.filter_cons_of_neg (by simpa using isAggregate), List.map_cons, List.map_cons,
          name]
        exact ((inductionHypothesis later others).cons _).trans List.perm_middle.symm
      · rw [List.filter_cons_of_neg isAggregate] at selected
        have name : field.name = entry := by
          rw [mfField, if_neg isAggregate, Option.some.injEq] at isField
          rw [← isField]
        rw [List.filter_cons_of_pos (by rw [Bool.eq_false_of_not_eq_true isAggregate]; rfl),
          List.map_cons, name, List.cons_append]
        exact (inductionHypothesis later selected).cons _

/-- The fields of a group structure are the plain columns and the aggregates of
the group. -/
theorem groupFields_names
    (i : Nat)
    (columns : List Column)
    (selectColumns : List Text)
    (allAggregates : List Aggregate) :
    (groupFields i columns selectColumns allAggregates).map Field.name =
      selectColumns ++
        (allAggregates.filter fun aggregate => aggregate.group = (i : Int)).map
          Aggregate.toVar := by
  rw [groupFields, List.map_append, List.map_map, List.map_map]
  congr 1
  exact List.map_id _

/-- Aggregates under different names, all with an underscore, beside columns
without one. -/
theorem nodup_append_of_plain
    {names : List Text}
    {aggregates : List Aggregate}
    {name : Aggregate → Text}
    (plain : ∀ column ∈ names, '_' ∉ column)
    (distinct : names.Nodup)
    (different : aggregates.Nodup)
    (injective : ∀ left ∈ aggregates, ∀ right ∈ aggregates, name left = name right → left = right)
    (underscore : ∀ aggregate, '_' ∈ name aggregate) :
    (names ++ aggregates.map name).Nodup := by
  rw [List.nodup_append]
  refine ⟨distinct, List.Nodup.map_on injective different, ?_⟩
  rintro column inColumns _ inAggregates rfl
  obtain ⟨aggregate, -, isName⟩ := List.mem_map.mp inAggregates
  exact plain column inColumns (isName ▸ underscore aggregate)

/-- Aggregates are read back from their text, and different aggregates and
columns of a query get different fields. -/
theorem aggregate_names_distinct :
    (∀ aggregate : Aggregate, aggregate.Writable →
      Aggregate.ofText aggregate.toText = some aggregate) ∧
    Set.InjOn Aggregate.toABSVar {aggregate | aggregate.Writable} ∧
    (∀ aggregate : Aggregate, aggregate.Writable → ∀ name, '_' ∉ name →
      aggregate.toABSVar ≠ name) ∧
    (∀ group, Set.InjOn Aggregate.toVar
      {aggregate | aggregate.Writable ∧ aggregate.group = group}) ∧
    (∀ (query : Query) (fields : List Field) (selectAggregates allAggregates : List Aggregate),
      mfFields query.selectAttribute query.columns = some fields →
      getSelectAggregates query.selectAttribute = some selectAggregates →
      getAllAggregates query.fVect = some allAggregates →
      (∀ aggregate ∈ selectAggregates, aggregate.Writable) →
      (∀ aggregate ∈ allAggregates, aggregate.Writable) →
      (getSelectColumns query.selectAttribute).Nodup → selectAggregates.Nodup →
      allAggregates.Nodup →
      (fields.map Field.name).Nodup ∧
        ∀ i, ((groupFields i query.columns (getSelectColumns query.selectAttribute)
          allAggregates).map Field.name).Nodup) := by
  refine ⟨fun _ => Aggregate.ofText_toText, Aggregate.toABSVar_injOn,
    fun aggregate _ _ => aggregate.toABSVar_ne, Aggregate.toVar_injOn, ?_⟩
  intro query fields selectAggregates allAggregates declared selected _ selectWritable allWritable
    distinct selectDistinct allDistinct
  have plain : ∀ column ∈ getSelectColumns query.selectAttribute, '_' ∉ column :=
    fun _ => underscore_notMem_selectColumn
  constructor
  · rw [(mfFields_names_perm declared selected).nodup_iff]
    refine nodup_append_of_plain plain distinct selectDistinct ?_
      Aggregate.underscore_mem_toABSVar
    intro left leftMember right rightMember
    exact Aggregate.toABSVar_injOn (selectWritable left leftMember)
      (selectWritable right rightMember)
  · intro i
    rw [groupFields_names]
    refine nodup_append_of_plain plain distinct (allDistinct.filter _) ?_
      Aggregate.underscore_mem_toVar
    intro left leftMember right rightMember
    obtain ⟨inLeft, leftGroup⟩ := List.mem_filter.mp leftMember
    obtain ⟨inRight, rightGroup⟩ := List.mem_filter.mp rightMember
    exact Aggregate.toVar_injOn i ⟨allWritable left inLeft, of_decide_eq_true leftGroup⟩
      ⟨allWritable right inRight, of_decide_eq_true rightGroup⟩

/-- The average of negative group three is read back from its text. -/
theorem aggregate_names_distinct_negative :
    Aggregate.ofText (Aggregate.toText ⟨-3, "avg", "quant"⟩) = some ⟨-3, "avg", "quant"⟩ :=
  aggregate_names_distinct.1 ⟨-3, "avg", "quant"⟩
    ⟨by decide, by decide, by decide, by decide, by decide,
      'q', by decide, by decide⟩

end MfQuery
