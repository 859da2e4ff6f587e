import MfQuery.Spelling.Conditions

/-!
# Compiled queries in upper and lower case

The scans, the HAVING condition, the copies into the result and the helpers of
a query are compared part by part. The compiled texts are equal up to spelling
exactly when no count of a string column is declared and no average is
compared with in a condition.
-/

namespace MfQuery

open Text

/-! ## Such-that lines -/

section Lines

variable {cased : CasedQuery} (valid : cased.Valid)
include valid

theorem CasedQuery.Valid.compared_toCppRest
    (rest : List (Connective × CasedAtom))
    (atoms : ∀ entry ∈ rest, entry.2.Valid cased.columns cased.n) :
    ∃ lower upper,
      Conditions.toCppRest "(*it)" "(*xt)" cased.groupingAttr cased.columns
          ((rest.map Prod.snd).map (CasedAtom.condition .lower))
          (rest.map fun entry => entry.1.text) = some lower ∧
        Conditions.toCppRest "(*it)" "(*xt)" cased.groupingAttr cased.columns
          ((rest.map Prod.snd).map (CasedAtom.condition .upper))
          (rest.map fun entry => entry.1.text) = some upper ∧
        CaseCompared (∀ entry ∈ rest, entry.2.value.AverageFits) lower upper := by
  induction rest with
  | nil => exact ⟨[], [], rfl, rfl, (Spelling.Compared.of_renamed .nil).congr (by simp)⟩
  | cons entry rest inductionHypothesis =>
      obtain ⟨connective, atom⟩ := entry
      obtain ⟨lowerRest, upperRest, lowerLater, upperLater, later⟩ := inductionHypothesis
        fun other member => atoms other (List.mem_cons_of_mem _ member)
      obtain ⟨lower, upper, lowerHere, upperHere, here⟩ :=
        valid.compared_atom (atoms _ (List.mem_cons_self ..))
      refine ⟨" " ++ connective.text ++ " " ++ lower ++ lowerRest,
        " " ++ connective.text ++ " " ++ upper ++ upperRest, ?_, ?_, ?_⟩
      · simp only [List.map_cons, Conditions.toCppRest, lowerHere, lowerLater,
          Option.bind_eq_bind, Option.bind_some]
        rfl
      · simp only [List.map_cons, Conditions.toCppRest, upperHere, upperLater,
          Option.bind_eq_bind, Option.bind_some]
        rfl
      · have word : Respelled (" " ++ connective.text ++ " " : Text)
            (" " ++ connective.text ++ " " : Text) := by
          cases connective <;> exact Respelled.closed (by decide)
        apply (((Spelling.Compared.of_renamed word).append here).append later).congr
        rw [true_and, List.forall_mem_cons]

/-- Lines differ exactly where their atoms do. -/
theorem CasedQuery.Valid.compared_line
    {line : CasedLine}
    (member : line ∈ cased.lines) :
    ∃ lower upper,
      (line.conditions .lower).toCpp "(*it)" "(*xt)" cased.groupingAttr cased.columns =
          some lower ∧
        (line.conditions .upper).toCpp "(*it)" "(*xt)" cased.groupingAttr cased.columns =
          some upper ∧
        CaseCompared (∀ atom ∈ line.atoms, atom.value.AverageFits) lower upper := by
  have atoms := valid.lines line member
  obtain ⟨lower, upper, lowerHere, upperHere, here⟩ :=
    valid.compared_atom (atoms line.first (List.mem_cons_self ..))
  obtain ⟨lowerRest, upperRest, lowerLater, upperLater, later⟩ :=
    valid.compared_toCppRest line.rest fun entry inside =>
      atoms entry.2 (List.mem_cons_of_mem _ (List.mem_map_of_mem inside))
  refine ⟨lower ++ lowerRest, upper ++ upperRest, ?_, ?_, ?_⟩
  · simp only [CasedLine.conditions, CasedLine.atoms, Conditions.toCpp, List.map_cons, lowerHere,
      lowerLater, Option.bind_eq_bind, Option.bind_some]
    rfl
  · simp only [CasedLine.conditions, CasedLine.atoms, Conditions.toCpp, List.map_cons, upperHere,
      upperLater, Option.bind_eq_bind, Option.bind_some]
    rfl
  · apply (here.append later).congr
    rw [CasedLine.atoms, List.forall_mem_cons, List.forall_mem_map]

end Lines

/-! ## Scans -/

/-- Consecutive scans are compared one by one. -/
theorem compared_scanTexts
    {lowerScan upperScan : Nat → List Aggregate → Option Text}
    {lowerBucket upperBucket : Nat → List Aggregate}
    {same : Nat → Prop}
    (start count : Nat)
    (each : ∀ i ∈ List.range' start count, ∃ lower upper,
      lowerScan i (lowerBucket i) = some lower ∧ upperScan i (upperBucket i) = some upper ∧
        CaseCompared (same i) lower upper) :
    ∃ lower upper,
      ScanGenerator.scanTexts lowerScan start ((List.range' start count).map lowerBucket) =
          some lower ∧
        ScanGenerator.scanTexts upperScan start ((List.range' start count).map upperBucket) =
          some upper ∧
        CaseCompared (∀ i ∈ List.range' start count, same i) lower upper := by
  induction count generalizing start with
  | zero => exact ⟨[], [], rfl, rfl, (Spelling.Compared.of_renamed .nil).congr (by simp)⟩
  | succ count inductionHypothesis =>
      rw [List.range'_succ] at each ⊢
      obtain ⟨lower, upper, lowerHere, upperHere, here⟩ := each start (List.mem_cons_self ..)
      obtain ⟨lowerRest, upperRest, lowerLater, upperLater, later⟩ :=
        inductionHypothesis (start + 1) fun i member => each i (List.mem_cons_of_mem _ member)
      refine ⟨lower ++ lowerRest, upper ++ upperRest, ?_, ?_, ?_⟩
      · simp only [List.map_cons, ScanGenerator.scanTexts, lowerHere, lowerLater,
          Option.bind_eq_bind, Option.bind_some]
        rfl
      · simp only [List.map_cons, ScanGenerator.scanTexts, upperHere, upperLater,
          Option.bind_eq_bind, Option.bind_some]
        rfl
      · apply (here.append later).congr
        rw [List.forall_mem_cons]

/-- No guard of scan `i` compares with an average. -/
def CasedQuery.GuardFits (cased : CasedQuery) : Nat → Prop
  | 0 => True
  | i + 1 => ∀ line ∈ cased.lines[i]?, ∀ atom ∈ line.atoms, atom.value.AverageFits

section Scans

variable {cased : CasedQuery} (valid : cased.Valid)
include valid

theorem CasedQuery.Valid.compared_getSelectionCond
    {i : Nat}
    (inRange : i ≤ cased.n) :
    ∃ lower upper,
      (cased.generator .lower).getSelectionCond i = some lower ∧
        (cased.generator .upper).getSelectionCond i = some upper ∧
        CaseCompared (cased.GuardFits i) lower upper := by
  cases i with
  | zero => exact ⟨_, _, rfl, rfl, .of_renamed (Respelled.closed (by decide))⟩
  | succ i =>
      have bound : i < cased.lines.length := by
        rw [valid.length_lines]
        omega
      have found : cased.lines[i]? = some cased.lines[i] := List.getElem?_eq_getElem bound
      obtain ⟨lower, upper, lowerLine, upperLine, line⟩ :=
        valid.compared_line (List.mem_of_getElem? found)
      refine ⟨lower, upper, ?_, ?_, ?_⟩
      · simpa [ScanGenerator.getSelectionCond, CasedQuery.generator, found] using lowerLine
      · simpa [ScanGenerator.getSelectionCond, CasedQuery.generator, found] using upperLine
      · apply line.congr
        simp [CasedQuery.GuardFits, found]

/-- The updates of a group are equal up to spelling. -/
theorem CasedQuery.Valid.respelled_updates
    {var : Text}
    (row : Respelled var var)
    (i : Nat) :
    Respelled
      (((cased.generator .lower).bucket i).flatMap fun aggregate => aggregate.updateText var)
      (((cased.generator .upper).bucket i).flatMap fun aggregate => aggregate.updateText var) := by
  simp only [ScanGenerator.bucket, CasedQuery.generator, cased.bucket_eq, List.flatMap_map]
  apply Spelling.Renamed.flatMap
  intro term member
  have termValid := valid.fVect term (List.mem_of_mem_filter member)
  exact term.respelled_updateText row (valid.respelled_name termValid.column_mem)

theorem CasedQuery.Valid.respelled_keyArguments :
    Respelled (cased.groupingAttr.flatMap fun attr => (",(*it)->" ++ attr : Text))
      (cased.groupingAttr.flatMap fun attr => (",(*it)->" ++ attr : Text)) := by
  apply Spelling.Renamed.flatMap
  intro attr member
  exact (Respelled.closed (by decide)).append (valid.respelled_attrs attr member)

theorem CasedQuery.Valid.compared_scanText
    {i : Nat}
    (inRange : i ≤ cased.n) :
    ∃ lower upper,
      (cased.generator .lower).scanText i ((cased.generator .lower).bucket i) = some lower ∧
        (cased.generator .upper).scanText i ((cased.generator .upper).bucket i) = some upper ∧
        CaseCompared (cased.GuardFits i) lower upper := by
  obtain ⟨lower, upper, lowerCond, upperCond, cond⟩ := valid.compared_getSelectionCond inRange
  have updates := valid.respelled_updates Respelled.row i
  have arguments := valid.respelled_keyArguments
  rw [ScanGenerator.scanText, ScanGenerator.scanText, lowerCond, upperCond]
  refine ⟨_, _, rfl, rfl, ?_⟩
  repeat' first
    | with_reducible refine Spelling.Compared.renamed_append ?_ cond
    | with_reducible apply Spelling.Compared.append_renamed
    | with_reducible apply Spelling.Renamed.append
  all_goals first
    | exact updates
    | exact arguments
    | exact Respelled.itoa i
    | exact Respelled.closed (by decide +kernel)

theorem CasedQuery.Valid.compared_emfScanText
    {i : Nat}
    (inRange : i ≤ cased.n) :
    ∃ lower upper,
      (cased.generator .lower).emfScanText i ((cased.generator .lower).bucket i) = some lower ∧
        (cased.generator .upper).emfScanText i ((cased.generator .upper).bucket i) = some upper ∧
        CaseCompared (cased.GuardFits i) lower upper := by
  obtain ⟨lower, upper, lowerCond, upperCond, cond⟩ := valid.compared_getSelectionCond inRange
  have updates := valid.respelled_updates
    (show Respelled "(*xt)" "(*xt)" from Respelled.closed (by decide)) i
  rw [ScanGenerator.emfScanText, ScanGenerator.emfScanText, lowerCond, upperCond]
  refine ⟨_, _, rfl, rfl, ?_⟩
  repeat' first
    | with_reducible refine Spelling.Compared.renamed_append ?_ cond
    | with_reducible apply Spelling.Compared.append_renamed
    | with_reducible apply Spelling.Renamed.append
  all_goals first
    | exact updates
    | exact Respelled.closed (by decide +kernel)

theorem CasedQuery.Valid.groupAggregates_eq (letterCase : LetterCase) :
    (cased.generator letterCase).groupAggregates =
      some ((List.range' 0 (cased.n + 1)).map (cased.generator letterCase).bucket) := by
  have inRange : (cased.generator letterCase).GroupsInRange := by
    intro aggregate member
    obtain ⟨term, inF, rfl⟩ := List.mem_map.mp member
    have bound := (valid.fVect term inF).group_le
    exact ⟨Int.natCast_nonneg _, Int.ofNat_le.mpr bound⟩
  rw [ScanGenerator.groupAggregates_eq inRange, List.range_eq_range']
  rfl

theorem CasedQuery.Valid.forall_guardFits_iff :
    (∀ i ∈ List.range' 0 (cased.n + 1), cased.GuardFits i) ↔
      ∀ line ∈ cased.lines, ∀ atom ∈ line.atoms, atom.value.AverageFits := by
  constructor
  · intro fits line member
    obtain ⟨i, found⟩ := List.mem_iff_getElem?.mp member
    have bound : i < cased.n := by
      rw [← valid.length_lines]
      exact (List.getElem?_eq_some_iff.mp found).1
    exact fits (i + 1) (by simp; omega) line found
  · intro fits i _
    cases i with
    | zero => exact trivial
    | succ i => exact fun line found => fits line (List.mem_of_getElem? found)

/-- The scans differ exactly where a condition compares with an average. -/
theorem CasedQuery.Valid.compared_scans :
    ∃ lower upper,
      (if cased.emf then (cased.generator .lower).emfAggregateScan
        else (cased.generator .lower).aggregateScan) = some lower ∧
      (if cased.emf then (cased.generator .upper).emfAggregateScan
        else (cased.generator .upper).aggregateScan) = some upper ∧
      CaseCompared (∀ line ∈ cased.lines, ∀ atom ∈ line.atoms, atom.value.AverageFits)
        lower upper := by
  simp only [ScanGenerator.emfAggregateScan, ScanGenerator.aggregateScan, valid.groupAggregates_eq,
    Option.bind_eq_bind, Option.bind_some, ← valid.forall_guardFits_iff]
  have bound : ∀ i ∈ List.range' 0 (cased.n + 1), i ≤ cased.n := by
    intro i member
    have below := (List.mem_range'_1.mp member).2
    omega
  split_ifs
  · apply compared_scanTexts
    intro i member
    exact valid.compared_emfScanText (bound i member)
  · apply compared_scanTexts
    intro i member
    exact valid.compared_scanText (bound i member)

end Scans

/-! ## The HAVING condition and the result -/

/-- Texts joined by spaces. -/
theorem respelled_joinWith
    {Item : Type}
    {lower upper : Item → Text}
    (items : List Item)
    (each : ∀ item ∈ items, Respelled (lower item) (upper item)) :
    Respelled (joinWith ' ' (items.map lower)) (joinWith ' ' (items.map upper)) := by
  induction items with
  | nil => exact .nil
  | cons item items inductionHypothesis =>
      have here := each item (List.mem_cons_self ..)
      have later := inductionHypothesis fun other member =>
        each other (List.mem_cons_of_mem _ member)
      cases items with
      | nil => exact here
      | cons next items =>
          have space : Respelled [' '] [' '] := Respelled.closed (by decide)
          exact here.append (space.append later)

/-- A HAVING token in C++. -/
def HavingEntry.cpp
    (columns : List Column)
    (letterCase : LetterCase) : HavingEntry → Text
  | other token => if Column.isColumn token columns then "data->" ++ token else token
  | aggregate term => (term.aggregate letterCase).readText

/-- The HAVING condition in C++. -/
def CasedQuery.havingCpp (cased : CasedQuery) (letterCase : LetterCase) : Text :=
  if cased.having = [] then "true"
  else joinWith ' ' (cased.having.map (HavingEntry.cpp cased.columns letterCase))

section Having

variable {cased : CasedQuery} (valid : cased.Valid)
include valid

theorem CasedQuery.Valid.havingToken_eq
    {entry : HavingEntry}
    (member : entry ∈ cased.having)
    (letterCase : LetterCase) :
    ScanGenerator.havingToken cased.columns (entry.text letterCase) =
      some (entry.cpp cased.columns letterCase) := by
  have here := valid.having entry member
  cases entry with
  | other token =>
      obtain ⟨-, plain, -⟩ := here
      have notAggregate : ¬Aggregate.isAggregate token = true := by
        rwa [Aggregate.isAggregate_eq_true]
      rw [HavingEntry.text, HavingEntry.cpp, ScanGenerator.havingToken, if_neg notAggregate]
      split_ifs <;> rfl
  | aggregate term =>
      rw [HavingEntry.text, ScanGenerator.havingToken, if_pos (term.isAggregate_text letterCase),
        valid.ofText_term letterCase here]
      rfl

theorem CasedQuery.Valid.havingFields (letterCase : LetterCase) :
    Fields ' ' (cased.having.map (HavingEntry.text letterCase)) := by
  have visible : ∀ entry ∈ cased.having,
      ∃ character ∈ entry.text letterCase, isBlank character = false := by
    intro entry member
    have here := valid.having entry member
    cases entry with
    | other token => exact here.2.2
    | aggregate term => exact ⟨'_', term.underscore_mem_text letterCase, by decide⟩
  constructor
  · rw [List.forall_mem_map]
    intro entry member
    obtain ⟨character, inside, -⟩ := visible entry member
    exact List.ne_nil_of_mem inside
  · rw [List.forall_mem_map]
    intro entry member
    have here := valid.having entry member
    cases entry with
    | other token => exact here.1
    | aggregate term => exact valid.notMem_text letterCase here (by decide)
  · intro last isLast
    obtain ⟨entry, member, rfl⟩ := List.mem_map.mp (List.mem_of_mem_getLast? isLast)
    exact visible entry member

theorem CasedQuery.Valid.parseHaving_eq (letterCase : LetterCase) :
    (cased.generator letterCase).parseHaving = some (cased.havingCpp letterCase) := by
  have tokens := valid.havingFields letterCase
  have written : (cased.generator letterCase).having =
      joinWith ' ' (cased.having.map (HavingEntry.text letterCase)) := rfl
  rw [ScanGenerator.parseHaving, written, CasedQuery.havingCpp]
  split_ifs with short absent present
  · rfl
  · obtain ⟨first, rest, shape⟩ := List.exists_cons_of_ne_nil absent
    rw [shape] at short tokens
    have nonempty := joinWith_ne_nil ' ' (rest.map (HavingEntry.text letterCase))
      (tokens.nonempty _ (List.mem_cons_self ..))
    exact absurd (List.eq_nil_of_length_eq_zero (Nat.lt_one_iff.mp short)) nonempty
  · rw [present] at short
    exact absurd Nat.zero_lt_one short
  · have exploded := cExplode_join ' ' _ (by simpa using present) tokens
    have translated : (cased.having.map (HavingEntry.text letterCase)).mapM
        (ScanGenerator.havingToken cased.columns) =
          some (cased.having.map (HavingEntry.cpp cased.columns letterCase)) := by
      rw [List.mapM_map]
      exact mapM_eq_some_map fun entry member => valid.havingToken_eq member letterCase
    rw [exploded]
    simp only [Option.bind_eq_bind, Option.bind_some]
    rw [show (cased.generator letterCase).columns = cased.columns from rfl, translated]
    rfl

theorem CasedQuery.Valid.respelled_having :
    Respelled (cased.havingCpp .lower) (cased.havingCpp .upper) := by
  rw [CasedQuery.havingCpp, CasedQuery.havingCpp]
  split_ifs
  · exact Respelled.closed (by decide)
  · apply respelled_joinWith
    intro entry member
    have here := valid.having entry member
    cases entry with
    | aggregate term => exact term.respelled_readText
    | other token =>
        have plain : Respelled token token := Respelled.plain here.2.1
        rw [HavingEntry.cpp, HavingEntry.cpp]
        split_ifs
        · exact (Respelled.closed (by decide)).append plain
        · exact plain

/-- The pass over the result is equal up to spelling. -/
theorem CasedQuery.Valid.respelled_fillMfstruct :
    ∃ lower upper,
      (cased.generator .lower).fillMfstruct = some lower ∧
        (cased.generator .upper).fillMfstruct = some upper ∧ Respelled lower upper := by
  have arguments := valid.respelled_keyArguments
  have having := valid.respelled_having
  have copies : Respelled
      ((cased.generator .lower).selectAggregates.flatMap fun aggregate =>
        ("\t\t(*it)->" ++ aggregate.toABSVar ++ " = " ++ aggregate.readText ++ ";\n" : Text))
      ((cased.generator .upper).selectAggregates.flatMap fun aggregate =>
        ("\t\t(*it)->" ++ aggregate.toABSVar ++ " = " ++ aggregate.readText ++ ";\n" : Text)) := by
    simp only [CasedQuery.generator, List.flatMap_map]
    apply Spelling.Renamed.flatMap
    intro term _
    have field := term.respelled_toABSVar
    have value := term.respelled_readText
    repeat' with_reducible apply Spelling.Renamed.append
    all_goals first
      | with_reducible exact field
      | with_reducible exact value
      | exact Respelled.closed (by decide)
  rw [ScanGenerator.fillMfstruct, ScanGenerator.fillMfstruct, valid.parseHaving_eq,
    valid.parseHaving_eq]
  refine ⟨_, _, rfl, rfl, ?_⟩
  repeat' with_reducible apply Spelling.Renamed.append
  all_goals first
    | with_reducible exact having
    | exact copies
    | exact arguments
    | exact Respelled.closed (by decide +kernel)

end Having

end MfQuery
