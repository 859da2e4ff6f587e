import MfQuery.FrontEnd.User
import MfQuery.Query

/-!
# From the front ends to the generator

`parse_query` receives pointers to the lists of a query. `explode` returns the
null pointer for an empty text and `getConditions` for an empty list, and most
functions use the pointers without a test. The pipeline is modelled over
pointers, with the failure that ends it.
-/

namespace MfQuery

open Text

/-! ## The generator over pointers -/

/-- `getConditions` over pointers. -/
def conditionsPointer (cond : Option (List Text)) : Except Failure (Option (List Conditions)) :=
  match cond with
  | none => .ok none
  | some [] => .ok none
  | some (line :: lines) => some <$> orThrow (getConditions (line :: lines))

namespace ScanGenerator

/-- The conditions `get_selection_cond` reads for a group; group zero does not use
the pointer. -/
def conditionsFor
    (generator : ScanGenerator)
    (selectConditions : Option (List Conditions)) : Nat → Except Failure (List Conditions)
  | 0 => .ok generator.selectConditions
  | _ + 1 => deref selectConditions

/-- One scan of either mode. -/
def scanOver
    (generator : ScanGenerator)
    (selectConditions : Option (List Conditions))
    (i : Nat)
    (bucket : List Aggregate) : Except Failure Text := do
  let conditions ← generator.conditionsFor selectConditions i
  let scanning := { generator with selectConditions := conditions }
  orThrow (if generator.emf then scanning.emfScanText i bucket else scanning.scanText i bucket)

/-- Scans of consecutive groups, numbered from `i`. -/
def scansOver
    (generator : ScanGenerator)
    (selectConditions : Option (List Conditions)) :
    Nat → List (List Aggregate) → Except Failure Text
  | _, [] => .ok []
  | i, bucket :: buckets => do
      let text ← generator.scanOver selectConditions i bucket
      let rest ← generator.scansOver selectConditions (i + 1) buckets
      return text ++ rest

/-- `generate` over the pointer to the such-that conditions. -/
def generateOver
    (generator : ScanGenerator)
    (selectConditions : Option (List Conditions)) : Except Failure Text := do
  let groups ← orThrow generator.groupAggregates
  let scans ← generator.scansOver selectConditions 0 groups
  let fill ← orThrow generator.fillMfstruct
  return generator.prelimScan ++ scans ++ fill

end ScanGenerator

/-- `get_helpers`. An attribute without a column leaves its type code
uninitialised; `stale` is what the function then does. -/
def helpersOver
    (stale : Option Text)
    (noGroupingVars : Nat)
    (groupingAttr : List Text)
    (columns : List Column) : Option Text :=
  if (getCt groupingAttr columns).isSome then getHelpers noGroupingVars groupingAttr columns
  else stale

/-- The structures and the functions `parse_query` writes for a query with a
number of grouping variables that is not negative. -/
def parseQuery
    (columns : List Column)
    (stale : Option Text)
    (emf : Bool)
    (query : UserQuery) : Except Failure (Text × Text) := do
  let n := query.noGroupingVars.toNat
  let fVect ← deref query.fVect
  let allAggregates ← orThrow (getAllAggregates fVect)
  let selectAttribute ← deref query.selectAttribute
  let selectAggregates ← orThrow (getSelectAggregates selectAttribute)
  let selectConditions ← conditionsPointer query.selectCondVect
  let structures ← orThrow (createStructures selectAttribute columns)
  let selectColumns := getSelectColumns selectAttribute
  let groups := createGroupingVarStructs n columns selectColumns allAggregates
  let groupingAttr ← deref query.groupingAttr
  let helpers ← orThrow (helpersOver stale n groupingAttr columns)
  let printer ← orThrow (createOutputPrinter selectAttribute)
  let generator : ScanGenerator := ⟨n, columns, selectColumns, selectAggregates, allAggregates,
    [], query.having, groupingAttr, emf⟩
  let body ← generator.generateOver selectConditions
  return (structures ++ groups, helpers ++ printer ++ body)

/-! ## Null pointers in the generator -/

namespace ScanGenerator

variable (generator : ScanGenerator)

theorem conditionsFor_ne_null
    {selectConditions : Option (List Conditions)}
    {i : Nat}
    (usable : i = 0 ∨ selectConditions ≠ none) :
    generator.conditionsFor selectConditions i ≠ .error .nullPointer := by
  intro null
  cases i with
  | zero => cases null
  | succ i =>
      cases selectConditions with
      | none => exact usable.elim (by omega) (fun nonnull => nonnull rfl)
      | some conditions => cases null

theorem scanOver_ne_null
    {selectConditions : Option (List Conditions)}
    {i : Nat}
    (usable : i = 0 ∨ selectConditions ≠ none)
    (bucket : List Aggregate) :
    generator.scanOver selectConditions i bucket ≠ .error .nullPointer := by
  intro null
  rcases bind_eq_null_iff.mp null with inCond | ⟨conditions, -, inScan⟩
  · exact generator.conditionsFor_ne_null usable inCond
  · exact orThrow_ne_null _ inScan

/-- Scans from group one on use the pointer. -/
theorem scansOver_ne_null
    {selectConditions : Option (List Conditions)}
    (nonnull : selectConditions ≠ none)
    (i : Nat)
    (groups : List (List Aggregate)) :
    generator.scansOver selectConditions i groups ≠ .error .nullPointer := by
  induction groups generalizing i with
  | nil =>
      intro null
      cases null
  | cons bucket buckets inductionHypothesis =>
      intro null
      rcases bind_eq_null_iff.mp null with inScan | ⟨text, -, null⟩
      · exact generator.scanOver_ne_null (Or.inr nonnull) bucket inScan
      · rcases bind_eq_null_iff.mp null with later | ⟨rest, -, impossible⟩
        · exact inductionHypothesis (i + 1) later
        · cases impossible

/-- The scan of group zero is written. -/
theorem scanOver_zero
    (selectConditions : Option (List Conditions))
    (bucket : List Aggregate) :
    ∃ text, generator.scanOver selectConditions 0 bucket = .ok text := by
  unfold scanOver conditionsFor
  cases generator.emf with
  | false => exact ⟨_, rfl⟩
  | true => exact ⟨_, rfl⟩

/-- Without such-that conditions the generator uses the null pointer exactly
when there is a group beyond group zero. -/
theorem scansOver_none_eq_null_iff
    (groups : List (List Aggregate)) :
    generator.scansOver none 0 groups = .error .nullPointer ↔ 1 < groups.length := by
  match groups with
  | [] =>
      constructor
      · rintro ⟨⟩
      · intro impossible
        simp at impossible
  | [bucket] =>
      obtain ⟨text, written⟩ := generator.scanOver_zero none bucket
      simp [scansOver, written, bind, Except.bind, pure, Except.pure]
  | bucket :: next :: buckets =>
      obtain ⟨text, written⟩ := generator.scanOver_zero none bucket
      have null : generator.scanOver none 1 next = .error .nullPointer := rfl
      simp [scansOver, written, null, bind, Except.bind]

/-- `generate` uses the null pointer exactly when it is null, the F-vector has
no group out of range and there is a grouping variable. -/
theorem generateOver_eq_null_iff
    (selectConditions : Option (List Conditions)) :
    generator.generateOver selectConditions = .error .nullPointer ↔
      generator.GroupsInRange ∧ selectConditions = none ∧ 0 < generator.noGroupingVars := by
  rw [generateOver, orThrow_bind_eq_null_iff]
  constructor
  · rintro ⟨groups, grouped, null⟩
    have inRange := groupsInRange_of_groupAggregates grouped
    rw [groupAggregates_eq inRange, Option.some.injEq] at grouped
    rcases bind_eq_null_iff.mp null with inScans | ⟨scans, -, null⟩
    · cases selectConditions with
      | none =>
          rw [scansOver_none_eq_null_iff, ← grouped, List.length_map, List.length_range] at inScans
          exact ⟨inRange, rfl, by omega⟩
      | some conditions =>
          exact absurd inScans (generator.scansOver_ne_null (by simp) 0 groups)
    · obtain ⟨fill, -, impossible⟩ := orThrow_bind_eq_null_iff.mp null
      cases impossible
  · rintro ⟨inRange, rfl, some⟩
    refine ⟨_, groupAggregates_eq inRange, bind_eq_null_iff.mpr (Or.inl ?_)⟩
    rw [scansOver_none_eq_null_iff, List.length_map, List.length_range]
    omega

/-- A scan over conditions is the scan of the generator with them. -/
theorem scanOver_some
    (conditions : List Conditions)
    (i : Nat)
    (bucket : List Aggregate) :
    generator.scanOver (some conditions) i bucket =
      orThrow
        (if generator.emf then
          { generator with selectConditions := conditions }.emfScanText i bucket
        else { generator with selectConditions := conditions }.scanText i bucket) := by
  cases i with
  | zero => rfl
  | succ i => rfl

theorem scansOver_some
    (conditions : List Conditions)
    (i : Nat)
    (groups : List (List Aggregate)) :
    generator.scansOver (some conditions) i groups =
      orThrow (scanTexts
        (fun i bucket =>
          if generator.emf then
            { generator with selectConditions := conditions }.emfScanText i bucket
          else { generator with selectConditions := conditions }.scanText i bucket) i groups) := by
  induction groups generalizing i with
  | nil => rfl
  | cons bucket buckets inductionHypothesis =>
      rw [scansOver, scanTexts, scanOver_some, inductionHypothesis]
      cases (if generator.emf then
          { generator with selectConditions := conditions }.emfScanText i bucket
        else { generator with selectConditions := conditions }.scanText i bucket) with
      | none => rfl
      | some text =>
          simp only [Option.bind_eq_bind, Option.bind_some]
          cases scanTexts _ (i + 1) buckets with
          | none => rfl
          | some rest => rfl

/-- Over a pointer that is not null, generation is that of the generator. -/
theorem generateOver_some (conditions : List Conditions) :
    generator.generateOver (some conditions) =
      orThrow { generator with selectConditions := conditions }.generate := by
  have scans : (if generator.emf then
      { generator with selectConditions := conditions }.emfAggregateScan
    else { generator with selectConditions := conditions }.aggregateScan) =
      generator.groupAggregates.bind (scanTexts
        (fun i bucket =>
          if generator.emf then
            { generator with selectConditions := conditions }.emfScanText i bucket
          else { generator with selectConditions := conditions }.scanText i bucket) 0) := by
    split_ifs
    · rfl
    · rfl
  have generated : { generator with selectConditions := conditions }.generate =
      ((if generator.emf then
        { generator with selectConditions := conditions }.emfAggregateScan
      else { generator with selectConditions := conditions }.aggregateScan).bind fun scans =>
        generator.fillMfstruct.bind fun fill => some (generator.prelimScan ++ scans ++ fill)) := by
    rw [generate]
    split_ifs
    · rfl
    · rfl
  rw [generated, scans, generateOver]
  cases generator.groupAggregates with
  | none => rfl
  | some groups =>
      change generator.scansOver (some conditions) 0 groups >>= _ = _
      rw [scansOver_some, Option.bind_some]
      cases scanTexts _ 0 groups with
      | none => rfl
      | some scans =>
          change orThrow generator.fillMfstruct >>= _ = _
          rw [Option.bind_some]
          cases generator.fillMfstruct with
          | none => rfl
          | some fill => rfl

end ScanGenerator

/-! ## Null pointers in the pipeline -/

theorem conditionsPointer_ne_null (cond : Option (List Text)) :
    conditionsPointer cond ≠ .error .nullPointer := by
  match cond with
  | none => simp [conditionsPointer]
  | some [] => simp [conditionsPointer]
  | some (line :: lines) =>
      rw [conditionsPointer]
      cases getConditions (line :: lines) with
      | none => simp [orThrow, Functor.map, Except.map]
      | some conditions => simp [orThrow, Functor.map, Except.map]

/-- The pointer to the conditions is null when there is no line. -/
theorem conditionsPointer_eq_ok_none_iff (cond : Option (List Text)) :
    conditionsPointer cond = .ok none ↔ cond.getD [] = [] := by
  match cond with
  | none => simp [conditionsPointer]
  | some [] => simp [conditionsPointer]
  | some (line :: lines) =>
      rw [conditionsPointer]
      cases getConditions (line :: lines) with
      | none => simp [orThrow, Functor.map, Except.map]
      | some conditions => simp [orThrow, Functor.map, Except.map]

section

variable {selectAttribute : List Text} {aggregates : List Aggregate}
  (read : getSelectAggregates selectAttribute = some aggregates)
include read

/-- Every aggregate of the select list can be read. -/
theorem readable_of_getSelectAggregates
    {name : Text}
    (member : name ∈ selectAttribute)
    (isAggregate : Aggregate.isAggregate name = true) :
    ∃ aggregate, Aggregate.ofText name = some aggregate := by
  obtain ⟨aggregate, -, isRead⟩ :=
    exists_result_of_mem read (List.mem_filter.mpr ⟨member, isAggregate⟩)
  exact ⟨aggregate, isRead⟩

theorem exists_createStructures (columns : List Column) :
    ∃ text, createStructures selectAttribute columns = some text := by
  have declared : ∃ fields, mfFields selectAttribute columns = some fields := by
    apply exists_mapM_eq_some
    intro name member
    rw [mfField]
    by_cases isAggregate : Aggregate.isAggregate name = true
    · obtain ⟨aggregate, isRead⟩ := readable_of_getSelectAggregates read member isAggregate
      rw [if_pos isAggregate, isRead]
      exact ⟨_, rfl⟩
    · rw [if_neg isAggregate]
      exact ⟨_, rfl⟩
  obtain ⟨fields, isFields⟩ := declared
  rw [createStructures, isFields]
  exact ⟨_, rfl⟩

theorem exists_createOutputPrinter :
    ∃ text, createOutputPrinter selectAttribute = some text := by
  have printed : ∃ fields, selectAttribute.mapM printedField = some fields := by
    apply exists_mapM_eq_some
    intro name member
    rw [printedField]
    by_cases isAggregate : Aggregate.isAggregate name = true
    · obtain ⟨aggregate, isRead⟩ := readable_of_getSelectAggregates read member isAggregate
      rw [if_pos isAggregate, isRead]
      exact ⟨_, rfl⟩
    · rw [if_neg isAggregate]
      exact ⟨_, rfl⟩
  obtain ⟨fields, isFields⟩ := printed
  rw [createOutputPrinter, isFields]
  exact ⟨_, rfl⟩

end

/-- Where `parse_query` uses a null pointer: the F-vector first, then the select
list, the grouping attributes and the such-that conditions, as long as nothing
throws before. -/
inductive NullUsed
    (columns : List Column)
    (stale : Option Text)
    (query : UserQuery) : Prop where
  | fVect
      (null : query.fVect = none)
  | selectAttribute
      {allAggregates : List Aggregate}
      (aggregates : getAllAggregates (query.fVect.getD []) = some allAggregates)
      (null : query.selectAttribute = none)
  | groupingAttr
      {allAggregates selectAggregates : List Aggregate}
      {conditions : Option (List Conditions)}
      (aggregates : getAllAggregates (query.fVect.getD []) = some allAggregates)
      (select : getSelectAggregates (query.selectAttribute.getD []) = some selectAggregates)
      (readable : conditionsPointer query.selectCondVect = .ok conditions)
      (null : query.groupingAttr = none)
  | selectConditions
      {allAggregates selectAggregates : List Aggregate}
      {helpers : Text}
      (aggregates : getAllAggregates (query.fVect.getD []) = some allAggregates)
      (select : getSelectAggregates (query.selectAttribute.getD []) = some selectAggregates)
      (helped : helpersOver stale query.noGroupingVars.toNat (query.groupingAttr.getD [])
        columns = some helpers)
      (inRange : ∀ aggregate ∈ allAggregates,
        0 ≤ aggregate.group ∧ aggregate.group ≤ query.noGroupingVars.toNat)
      (positive : 0 < query.noGroupingVars.toNat)
      (null : conditionsPointer query.selectCondVect = .ok none)

theorem parseQuery_eq_null_iff
    (columns : List Column)
    (stale : Option Text)
    (emf : Bool)
    (query : UserQuery) :
    parseQuery columns stale emf query = .error .nullPointer ↔ NullUsed columns stale query := by
  obtain ⟨selectAttribute, whereText, number, groupingAttr, fVect, selectCondVect, having⟩ := query
  simp only [parseQuery, bind_eq_null_iff, deref_eq_null_iff, deref_eq_ok_iff, orThrow_ne_null,
    orThrow_eq_ok_iff, conditionsPointer_ne_null, false_or,
    ScanGenerator.generateOver_eq_null_iff]
  constructor
  · rintro (null | ⟨fVect, rfl, allAggregates, aggregates, null | ⟨selectAttribute, rfl,
      selectAggregates, select, conditions, readable, structures, -, null | ⟨groupingAttr, rfl,
      helpers, helped, printer, -, ⟨inRange, rfl, positive⟩ | ⟨_, -, impossible⟩⟩⟩⟩)
    · exact .fVect null
    · exact .selectAttribute aggregates null
    · exact .groupingAttr aggregates select readable null
    · exact .selectConditions aggregates select helped inRange positive readable
    · cases impossible
  · intro used
    -- Down the chain: a null pointer ends it, otherwise the next step has returned.
    cases fVect with
    | none => exact Or.inl rfl
    | some fVect =>
        refine Or.inr ⟨fVect, rfl, ?_⟩
        cases used with
        | fVect null => cases null
        | selectAttribute aggregates null => exact ⟨_, aggregates, Or.inl null⟩
        | groupingAttr aggregates select readable null =>
            refine ⟨_, aggregates, ?_⟩
            cases selectAttribute with
            | none => exact Or.inl rfl
            | some selectAttribute =>
                obtain ⟨structures, created⟩ := exists_createStructures select columns
                exact Or.inr ⟨_, rfl, _, select, _, readable, structures, created, Or.inl null⟩
        | selectConditions aggregates select helped inRange positive null =>
            refine ⟨_, aggregates, ?_⟩
            cases selectAttribute with
            | none => exact Or.inl rfl
            | some selectAttribute =>
                obtain ⟨structures, created⟩ := exists_createStructures select columns
                obtain ⟨printer, printed⟩ := exists_createOutputPrinter select
                refine Or.inr ⟨_, rfl, _, select, _, null, structures, created, ?_⟩
                cases groupingAttr with
                | none => exact Or.inl rfl
                | some groupingAttr =>
                    exact Or.inr ⟨_, rfl, _, helped, printer, printed,
                      Or.inl ⟨inRange, rfl, positive⟩⟩

end MfQuery
