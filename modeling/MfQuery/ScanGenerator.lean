import MfQuery.Condition
import MfQuery.Helpers

/-!
# The scan generator

`Scan_Generator` writes the body of the emitted `main`: a first pass that
fills the result vector and the group vectors with the plain columns, one scan
per grouping variable that updates the aggregates, and a last pass that
applies the HAVING condition and copies the selected aggregates. Generation
fails (`none`) where the source throws.
-/

namespace MfQuery

open Text

/-- `Scan_Generator`. -/
structure ScanGenerator where
  noGroupingVars : Nat
  columns : List Column
  selectColumns : List Text
  selectAggregates : List Aggregate
  allAggregates : List Aggregate
  selectConditions : List Conditions
  having : Text
  groupingAttr : List Text
  emf : Bool

/-- How an aggregate function updates its field for one more row; functions
the scans do not know update nothing. -/
inductive Update
  | avg
  | sum
  | count
  | min
  | max
  | none
  deriving DecidableEq, Repr

/-- The chain of function-name tests of both scan generators. -/
def Aggregate.update (aggregate : Aggregate) : Update :=
  if aggregate.isFunc "avg" "AVG" then .avg
  else if aggregate.isFunc "sum" "SUM" then .sum
  else if aggregate.isFunc "count" "COUNT" then .count
  else if aggregate.isFunc "min" "MIN" then .min
  else if aggregate.isFunc "max" "MAX" then .max
  else .none

/-- `data<g>->at(pos)->field` for an aggregate. -/
def Aggregate.place (aggregate : Aggregate) : Text :=
  "data" ++ itoa aggregate.group ++ "->at(pos)->" ++ aggregate.toVar

/-- Update statement of one aggregate, reading the row `var`. -/
def Aggregate.updateText (aggregate : Aggregate) (var : Text) : Text :=
  let place := aggregate.place
  let value := var ++ "->" ++ aggregate.column
  match aggregate.update with
  | .avg => "\t\t\t" ++ place ++ ".add(" ++ value ++ ");\n"
  | .sum => "\t\t\t" ++ place ++ " += " ++ value ++ ";\n"
  | .count => "\t\t\t" ++ place ++ " += 1;\n"
  | .min =>
      "\t\t\tif(" ++ place ++ "> " ++ value ++ ")\x7b\n" ++
        "\t\t\t\t" ++ place ++ " = " ++ value ++ ";\n" ++ "\t\t\t\x7d\n"
  | .max =>
      "\t\t\tif(" ++ place ++ "< " ++ value ++ ")\x7b\n" ++
        "\t\t\t\t" ++ place ++ " = " ++ value ++ ";\n" ++ "\t\t\t\x7d\n"
  | .none => []

/-- Reading an aggregate at `pos`: an average goes through `value()`. -/
def Aggregate.readText (aggregate : Aggregate) : Text :=
  aggregate.place ++ (if aggregate.isAvg then (".value()" : Text) else [])

namespace ScanGenerator

/-- One HAVING token in C++. -/
def havingToken (columns : List Column) (token : Text) : Option Text :=
  if Aggregate.isAggregate token then (Aggregate.ofText token).map Aggregate.readText
  else if Column.isColumn token columns then some ("data->" ++ token)
  else some token

/-- `parse_having`. -/
def parseHaving (generator : ScanGenerator) : Option Text :=
  if generator.having.length < 1 then some "true"
  else do
    let expl ← cExplode ' ' generator.having
    let out ← expl.mapM (havingToken generator.columns)
    return joinWith ' ' out

/-- `get_selection_cond`. -/
def getSelectionCond (generator : ScanGenerator) : Nat → Option Text
  | 0 => some "true"
  | group + 1 => do
      let line ← generator.selectConditions[group]?
      line.toCpp "(*it)" "(*xt)" generator.groupingAttr generator.columns

/-- One step of `group_aggregates`: `out.at(group).push_back(aggregate)`. -/
def pushAggregate
    (out : List (List Aggregate))
    (aggregate : Aggregate) : Option (List (List Aggregate)) :=
  if 0 ≤ aggregate.group ∧ aggregate.group < out.length then
    some (out.modify aggregate.group.toNat (· ++ [aggregate]))
  else none

/-- `group_aggregates`. -/
def groupAggregates (generator : ScanGenerator) : Option (List (List Aggregate)) :=
  generator.allAggregates.foldlM pushAggregate
    (List.replicate (generator.noGroupingVars + 1) [])

/-- Assignment of a plain column of the current row to a new record. -/
def copyText (var column : Text) : Text :=
  "\t\t" ++ var ++ "->" ++ column ++ " = " ++ "(*it)->" ++ column ++ ";\n"

/-- `prelim_scan`. -/
def prelimScan (generator : ScanGenerator) : Text :=
  "\tvector<struct sales*>* uniques = get_uniques(data);\n" ++
    (List.range (generator.noGroupingVars + 1)).flatMap (fun (i : Nat) =>
      ("\tvector<struct group" ++ itoa i ++ "*>* data" ++ itoa i ++
        " = new vector<struct group" ++ itoa i ++ "*>();\n" : Text)) ++
    "\tfor(vector<struct sales*>::iterator it = uniques->begin();it != uniques->end();it++)\x7b\n" ++
    "\t\tstruct mf_structure* entry = (struct mf_structure*)calloc(1,sizeof(struct mf_structure));\n" ++
    generator.selectColumns.flatMap (copyText "entry") ++
    "\t\tmf_struct->push_back(entry);\n" ++
    (List.range (generator.noGroupingVars + 1)).flatMap (fun (i : Nat) =>
      ("\t\tstruct group" ++ itoa i ++ "* entry" ++ itoa i ++ " = (struct group" ++ itoa i ++
        "*)calloc(1,sizeof(struct group" ++ itoa i ++ "));\n" ++
        generator.selectColumns.flatMap (copyText ("entry" ++ itoa i)) ++
        "\t\tdata" ++ itoa i ++ "->push_back(entry" ++ itoa i ++ ");\n" : Text)) ++
    "\t\x7d\n"

/-- One scan of `aggregate_scan`. -/
def scanText
    (generator : ScanGenerator)
    (i : Nat)
    (bucket : List Aggregate) : Option Text :=
  (generator.getSelectionCond i).map fun cond =>
    "\tfor(auto it = data->begin(); it != data->end();it++)\x7b\n" ++ "\t\tsize_t pos;\n" ++
      "\t\tif(" ++ cond ++ ")\x7b\n" ++
      "\t\t\tpos = vfind" ++ itoa i ++ "(data" ++ itoa i ++
      generator.groupingAttr.flatMap (fun attr => (",(*it)->" ++ attr : Text)) ++ ");\n" ++
      bucket.flatMap (fun aggregate => aggregate.updateText "(*it)") ++
      "\t\t\x7d\n" ++ "\t\x7d\n"

/-- One scan of `emf_aggregate_scan`. -/
def emfScanText
    (generator : ScanGenerator)
    (i : Nat)
    (bucket : List Aggregate) : Option Text :=
  (generator.getSelectionCond i).map fun cond =>
    "\tfor(auto it = uniques->begin();it != uniques->end();it++)\n" ++
      "\t\tfor(auto xt = data->begin(); xt != data->end();xt++)\x7b\n" ++
      "\t\tif(" ++ cond ++ ")\x7b\n" ++ "\t\t\tsize_t pos = it - uniques->begin();\n" ++
      bucket.flatMap (fun aggregate => aggregate.updateText "(*xt)") ++
      "\t\t\x7d\n" ++ "\t\x7d\n"

/-- Scans of consecutive groups, numbered from `i`. -/
def scanTexts (scan : Nat → List Aggregate → Option Text) :
    Nat → List (List Aggregate) → Option Text
  | _, [] => some []
  | i, bucket :: buckets => do
      let text ← scan i bucket
      let rest ← scanTexts scan (i + 1) buckets
      return text ++ rest

/-- `aggregate_scan`. -/
def aggregateScan (generator : ScanGenerator) : Option Text := do
  let groups ← generator.groupAggregates
  scanTexts generator.scanText 0 groups

/-- `emf_aggregate_scan`. -/
def emfAggregateScan (generator : ScanGenerator) : Option Text := do
  let groups ← generator.groupAggregates
  scanTexts generator.emfScanText 0 groups

/-- `fill_mfstruct`. -/
def fillMfstruct (generator : ScanGenerator) : Option Text :=
  generator.parseHaving.map fun having =>
    "\tfor(auto it = mf_struct->begin();it != mf_struct->end(); it++)\x7b\n" ++
      "\t\tint pos = vfind0(data0" ++
      generator.groupingAttr.flatMap (fun attr => (",(*it)->" ++ attr : Text)) ++ ");\n" ++
      "\t\tif(!(" ++ having ++ ")" ++
      ")\x7b\n" ++ "\t\t\tmf_struct->erase(it);\n" ++ "\t\t\tit--;\n" ++ "\t\t\tcontinue;\n" ++
      "\t\t\x7d\n" ++ "\t\tif(pos == -1)\x7b\n" ++ "\t\t\tmf_struct->erase(it);\n" ++
      "\t\t\tit--;\n" ++ "\t\t\tcontinue;\n" ++ "\t\t\x7d\n" ++
      generator.selectAggregates.flatMap (fun aggregate =>
        ("\t\t(*it)->" ++ aggregate.toABSVar ++ " = " ++ aggregate.readText ++ ";\n" : Text)) ++
      "\t\x7d\n"

/-- `generate`. -/
def generate (generator : ScanGenerator) : Option Text := do
  let scans ← if generator.emf then generator.emfAggregateScan else generator.aggregateScan
  let fill ← generator.fillMfstruct
  return generator.prelimScan ++ scans ++ fill

/-! ## Bucketing -/

/-- The aggregates of one group, in the order of the F-vector. -/
def bucket (generator : ScanGenerator) (i : Nat) : List Aggregate :=
  generator.allAggregates.filter fun aggregate => aggregate.group = (i : Int)

/-- All groups of the F-vector exist. -/
def GroupsInRange (generator : ScanGenerator) : Prop :=
  ∀ aggregate ∈ generator.allAggregates,
    0 ≤ aggregate.group ∧ aggregate.group ≤ generator.noGroupingVars

/-- Pushing a list of aggregates appends to every bucket its own part. -/
theorem foldlM_pushAggregate
    (aggregates : List Aggregate)
    (out : List (List Aggregate))
    (inRange : ∀ aggregate ∈ aggregates,
      0 ≤ aggregate.group ∧ aggregate.group < out.length) :
    aggregates.foldlM pushAggregate out =
      some (out.mapIdx fun i pushed =>
        pushed ++ aggregates.filter fun aggregate => aggregate.group = (i : Int)) := by
  induction aggregates generalizing out with
  | nil =>
      have unchanged : out.mapIdx (fun _ pushed => pushed) = out := by
        apply List.ext_getElem
        · simp
        · intro i _ _
          simp
      simp [unchanged]
  | cons aggregate aggregates inductionHypothesis =>
      have here := inRange aggregate (List.mem_cons_self ..)
      have later := inductionHypothesis (out.modify aggregate.group.toNat (· ++ [aggregate]))
        (by
          intro other member
          simpa using inRange other (List.mem_cons_of_mem _ member))
      rw [List.foldlM_cons, pushAggregate, if_pos here]
      simp only [Option.bind_eq_bind, Option.bind_some, later, Option.some.injEq]
      apply List.ext_getElem
      · simp
      intro i inside _
      simp only [List.getElem_mapIdx, List.getElem_modify, List.filter_cons, decide_eq_true_eq]
      by_cases same : aggregate.group = (i : Int)
      · have index : aggregate.group.toNat = i := by omega
        simp [same]
      · have index : aggregate.group.toNat ≠ i := by omega
        simp [same, index]

/-- `group_aggregates` succeeds on groups in range and yields the buckets. -/
theorem groupAggregates_eq
    {generator : ScanGenerator}
    (inRange : generator.GroupsInRange) :
    generator.groupAggregates =
      some ((List.range (generator.noGroupingVars + 1)).map generator.bucket) := by
  have pushed := foldlM_pushAggregate generator.allAggregates
    (List.replicate (generator.noGroupingVars + 1) [])
    (by
      intro aggregate member
      have bounds := inRange aggregate member
      simp only [List.length_replicate]
      omega)
  rw [groupAggregates, pushed]
  congr 1
  apply List.ext_getElem
  · simp
  · intro i _ _
    simp [bucket]

/-- Where `group_aggregates` succeeds, all groups exist. -/
theorem groupsInRange_of_groupAggregates
    {generator : ScanGenerator}
    {groups : List (List Aggregate)}
    (grouped : generator.groupAggregates = some groups) :
    generator.GroupsInRange := by
  have general : ∀ (aggregates : List Aggregate) (out groups : List (List Aggregate)),
      aggregates.foldlM pushAggregate out = some groups →
        ∀ aggregate ∈ aggregates, 0 ≤ aggregate.group ∧ aggregate.group < out.length := by
    intro aggregates
    induction aggregates with
    | nil => simp
    | cons first aggregates inductionHypothesis =>
        intro out groups pushed aggregate member
        simp only [List.foldlM_cons, Option.bind_eq_bind, Option.bind_eq_some_iff,
          pushAggregate, Option.ite_none_right_eq_some, Option.some.injEq] at pushed
        obtain ⟨_, ⟨here, rfl⟩, later⟩ := pushed
        rcases List.mem_cons.mp member with rfl | inside
        · exact here
        · simpa using inductionHypothesis _ _ later aggregate inside
  intro aggregate member
  have bounds := general _ _ _ grouped aggregate member
  rw [List.length_replicate] at bounds
  omega

end ScanGenerator
end MfQuery
