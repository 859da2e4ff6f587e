import MfQuery.Spelling.Emitted
import MfQuery.Lib.Lines

/-!
# Conditions in upper and lower case

The translation of an atom in upper case is that in lower case up to spelling,
unless its value is an average: the aggregate branch of `Condition::toCpp`
searches the lower-case name only and leaves `value()` out.
-/

namespace MfQuery

open Text

/-! ## Texts read as aggregates -/

theorem joinWith_cExplodeLoop_prefix
    (quan : Char)
    (passed rest : Text) :
    joinWith quan (cExplodeLoop quan passed rest) <+: passed ++ rest := by
  fun_induction cExplodeLoop quan passed rest with
  | case1 passed next rest inductionHypothesis =>
      cases pieces : cExplodeLoop quan [next] rest with
      | nil => exact List.prefix_append passed _
      | cons piece more =>
          rw [pieces] at inductionHypothesis
          rw [joinWith, List.prefix_append_right_inj]
          exact List.cons_prefix_cons.mpr ⟨rfl, inductionHypothesis⟩
  | case2 passed current next rest different inductionHypothesis =>
      simpa using inductionHypothesis
  | case3 passed current visible => exact List.prefix_refl _
  | case4 passed current blank => exact List.nil_prefix
  | case5 passed visible => simp [joinWith]
  | case6 passed blank => exact List.nil_prefix

/-- The field of an aggregate read from a text occurs in the text. -/
theorem Aggregate.toVar_infix
    {text : Text}
    {aggregate : Aggregate}
    (read : Aggregate.ofText text = some aggregate) :
    aggregate.toVar <:+: text := by
  unfold Aggregate.ofText at read
  have whole := joinWith_cExplodeLoop_prefix '_' [] text
  rw [List.nil_append] at whole
  have exploded : ∀ pieces, cExplode '_' text = some pieces → joinWith '_' pieces <+: text := by
    intro pieces equal
    rw [cExplode] at equal
    split_ifs at equal with empty
    rw [← Option.some.inj equal]
    exact whole
  split at read
  · next group func column equal =>
    cases read
    have joined := exploded _ equal
    have field : Aggregate.toVar ⟨atoi group, func, column⟩ <:+:
        joinWith '_' [group, func, column] :=
      ⟨group ++ ['_'], [], by simp [Aggregate.toVar, joinWith]⟩
    exact field.trans joined.isInfix
  · next func column more _ equal =>
    cases read
    have joined := exploded _ equal
    have field : Aggregate.toVar ⟨0, func, column⟩ <:+:
        joinWith '_' (func :: column :: more) := by
      cases more with
      | nil => exact ⟨[], [], by simp [Aggregate.toVar, joinWith]⟩
      | cons next more =>
          exact ⟨[], '_' :: joinWith '_' (next :: more), by simp [Aggregate.toVar, joinWith]⟩
    exact field.trans joined.isInfix
  · cases read

theorem noFunction_of_inside
    {part text : Text}
    (noFunction_text : noFunction text = true)
    (inside : part <:+: text) :
    noFunction part = true := by
  simp only [noFunction, List.all_eq_true, Bool.not_eq_true', Bool.eq_false_iff, ne_eq,
    contains_eq_true] at noFunction_text ⊢
  intro func member occurs
  exact noFunction_text func member (occurs.trans inside)

theorem Respelled.itoa (value : Int) : Respelled (itoa value) (itoa value) := by
  apply Respelled.plain
  have noDigit : '_' ∉ Text.numeral value.natAbs := notMem_numeral (by decide) _
  rw [MfQuery.itoa]
  split_ifs
  · simpa using noDigit
  · exact noDigit

/-! ## Atoms -/

/-- A row variable. -/
theorem Respelled.row : Respelled "(*it)" "(*it)" := Respelled.closed (by decide)

theorem respelled_operand
    {condition : Condition}
    (column : Respelled condition.column condition.column) :
    Respelled (condition.operand "(*it)") (condition.operand "(*it)") := by
  unfold Condition.operand
  apply Spelling.Renamed.append
  · exact (Respelled.row.append (Respelled.closed (by decide))).append column
  · split_ifs
    · exact Respelled.closed (by decide)
    · exact .nil

/-- The comparison, for values that are compared in the same way. -/
theorem respelled_compareWith
    {lower upper : Condition}
    {out lowerValue upperValue : Text}
    (sameExp : upper.exp = lower.exp)
    (exp : Respelled lower.exp lower.exp)
    (sameKind : contains upper.value "\"" = contains lower.value "\"")
    (left : Respelled out out)
    (right : Respelled lowerValue upperValue) :
    Respelled (lower.compareWith out lowerValue) (upper.compareWith out upperValue) := by
  unfold Condition.compareWith
  rw [sameExp, sameKind]
  split_ifs <;> repeat' with_reducible apply Spelling.Renamed.append
  all_goals first
    | exact left
    | exact right
    | exact exp
    | exact Respelled.closed (by decide)

theorem respelled_vfindCall
    {groupingAttr : List Text}
    (attrs : ∀ attr ∈ groupingAttr, Respelled attr attr)
    (group : Int) :
    Respelled (Condition.vfindCall group "(*it)" groupingAttr)
      (Condition.vfindCall group "(*it)" groupingAttr) := by
  have arguments : Respelled
      (groupingAttr.flatMap fun attr => ("," ++ "(*it)" ++ "->" ++ attr : Text))
      (groupingAttr.flatMap fun attr => ("," ++ "(*it)" ++ "->" ++ attr : Text)) := by
    apply Spelling.Renamed.flatMap
    intro attr member
    exact (((Respelled.closed (by decide)).append Respelled.row).append
      (Respelled.closed (by decide))).append (attrs attr member)
  unfold Condition.vfindCall
  repeat' with_reducible apply Spelling.Renamed.append
  all_goals first
    | exact arguments
    | exact Respelled.itoa group
    | exact Respelled.closed (by decide)

/-- The aggregate branch for values that are read in the same way. -/
theorem respelled_aggregateCpp
    {lower upper : Condition}
    {lowerAggregate upperAggregate : Aggregate}
    {groupingAttr : List Text}
    (attrs : ∀ attr ∈ groupingAttr, Respelled attr attr)
    (sameColumn : upper.column = lower.column)
    (column : Respelled lower.column lower.column)
    (sameExp : upper.exp = lower.exp)
    (exp : Respelled lower.exp lower.exp)
    (sameKind : contains upper.value "\"" = contains lower.value "\"")
    (sameAverage : contains upper.value "avg" = contains lower.value "avg")
    (sameGroup : upperAggregate.group = lowerAggregate.group)
    (field : Respelled lowerAggregate.toVar upperAggregate.toVar) :
    Respelled (lower.aggregateCpp "(*it)" groupingAttr lowerAggregate)
      (upper.aggregateCpp "(*it)" groupingAttr upperAggregate) := by
  have sameOperand : upper.operand "(*it)" = lower.operand "(*it)" := by
    rw [Condition.operand, Condition.operand, sameColumn]
  have operand := respelled_operand column
  have position := respelled_vfindCall attrs lowerAggregate.group
  have number := Respelled.itoa lowerAggregate.group
  simp only [Condition.aggregateCpp, sameGroup, sameAverage, sameOperand]
  apply Spelling.Renamed.append
  · apply Spelling.Renamed.append
    · repeat' with_reducible apply Spelling.Renamed.append
      all_goals first
        | exact position
        | exact Respelled.closed (by decide)
    · apply respelled_compareWith sameExp exp sameKind operand
      apply Spelling.Renamed.append
      · repeat' with_reducible apply Spelling.Renamed.append
        all_goals first
          | exact position
          | exact number
          | exact field
          | exact Respelled.closed (by decide)
      · split_ifs
        · exact Respelled.closed (by decide)
        · exact .nil
  · exact Respelled.closed (by decide)

/-- Without an underscore, a text occurs in the function or in the column. -/
theorem AggregateTerm.infix_text_iff
    (term : AggregateTerm)
    (letterCase : LetterCase)
    {pattern : Text}
    (free : '_' ∉ pattern)
    {letter : Char}
    (inside : letter ∈ pattern)
    (noDigit : letter.isDigit = false) :
    pattern <:+: term.text letterCase ↔
      pattern <:+: term.func.text letterCase ∨ pattern <:+: term.column := by
  have notInNumeral (value : Nat) : ¬pattern <:+: numeral value := by
    intro occurs
    exact notMem_numeral noDigit value (occurs.subset inside)
  rw [text, labelText]
  cases term.label with
  | none => exact Lines.infix_line_iff free _ _
  | some group =>
      have shape : numeral group ++ ['_'] ++ (term.func.text letterCase ++ '_' :: term.column) =
          numeral group ++ '_' :: (term.func.text letterCase ++ '_' :: term.column) := by
        simp
      simp only [shape, Lines.infix_line_iff free, notInNumeral, false_or]

theorem AggregateTerm.contains_avg_lower (term : AggregateTerm) :
    contains (term.text .lower) "avg" =
      (decide (term.func = .avg) || contains term.column "avg") := by
  have occurs := term.infix_text_iff .lower (show '_' ∉ "avg".toList by decide)
    (show 'a' ∈ "avg".toList by decide) (by decide)
  rw [Bool.eq_iff_iff, contains_eq_true, occurs, Bool.or_eq_true, contains_eq_true,
    decide_eq_true_eq]
  apply or_congr_left
  cases term.func <;> decide

theorem AggregateTerm.contains_avg_upper (term : AggregateTerm) :
    contains (term.text .upper) "avg" = contains term.column "avg" := by
  have occurs := term.infix_text_iff .upper (show '_' ∉ "avg".toList by decide)
    (show 'a' ∈ "avg".toList by decide) (by decide)
  rw [Bool.eq_iff_iff, contains_eq_true, occurs, contains_eq_true]
  apply or_iff_right
  cases term.func <;> decide

/-- The comparison of two values of different lengths. -/
theorem length_compareWith
    {lower upper : Condition}
    {out lowerValue upperValue : Text}
    (sameExp : upper.exp = lower.exp)
    (sameKind : contains upper.value "\"" = contains lower.value "\"")
    (shorter : upperValue.length < lowerValue.length) :
    (upper.compareWith out upperValue).length < (lower.compareWith out lowerValue).length := by
  unfold Condition.compareWith
  rw [sameExp, sameKind]
  split_ifs
  · simp only [List.length_append]
    omega
  · simp only [List.length_append]
    omega
  · simp only [List.length_append]
    omega

theorem length_between
    {first second : Text}
    (before after : Text)
    (shorter : second.length < first.length) :
    (before ++ second ++ after).length < (before ++ first ++ after).length := by
  simp only [List.length_append]
  omega

section Atoms

variable {cased : CasedQuery} (valid : cased.Valid)
include valid

theorem CasedQuery.Valid.respelled_attrs :
    ∀ attr ∈ cased.groupingAttr, Respelled attr attr :=
  fun attr member => valid.respelled_name (valid.groupingAttr attr member)

/-- An average inside the column name reads both spellings through `value()`. -/
def AtomOperand.AverageFits : AtomOperand → Prop
  | other _ => True
  | aggregate term => term.func = .avg → contains term.column "avg" = true

omit valid in
theorem Respelled.exp (operator : CmpOp) : Respelled operator.exp operator.exp := by
  cases operator <;> exact Respelled.closed (by decide)

/-- An atom whose value is no aggregate is translated once. -/
theorem CasedQuery.Valid.respelled_other
    {condition : Condition}
    {operator : CmpOp}
    (column : Respelled condition.column condition.column)
    (isExp : condition.exp = operator.exp)
    (value : noFunction condition.value = true)
    (readable : '_' ∈ condition.value → (Aggregate.ofText condition.value).isSome = true) :
    ∃ text, condition.toCpp "(*it)" "(*xt)" cased.groupingAttr cased.columns = some text ∧
      Respelled text text := by
  have exp : Respelled condition.exp condition.exp := isExp ▸ Respelled.exp operator
  have plain : Respelled condition.value condition.value := Respelled.closed value
  have operand := respelled_operand column
  have ofColumn : Respelled ("(*xt)" ++ "->" ++ condition.value : Text)
      ("(*xt)" ++ "->" ++ condition.value : Text) :=
    ((Respelled.closed (by decide)).append (Respelled.closed (by decide))).append plain
  rw [Condition.toCpp]
  split_ifs with isColumn isAggregate hasColumn
  · exact ⟨_, rfl, respelled_compareWith rfl exp rfl operand ofColumn⟩
  · obtain ⟨aggregate, read⟩ := Option.isSome_iff_exists.mp
      (readable ((Aggregate.isAggregate_eq_true _).mp isAggregate))
    rw [read]
    refine ⟨_, rfl, ?_⟩
    apply respelled_aggregateCpp valid.respelled_attrs rfl column rfl exp rfl rfl rfl
    exact Respelled.closed (noFunction_of_inside value (Aggregate.toVar_infix read))
  · exact ⟨_, rfl, respelled_compareWith rfl exp rfl operand ofColumn⟩
  · exact ⟨_, rfl, respelled_compareWith rfl exp rfl operand plain⟩

section Aggregates

variable {term : AggregateTerm} (termValid : term.Valid cased.columns cased.n)
include termValid

theorem CasedQuery.Valid.toCpp_aggregate
    {condition : Condition}
    {letterCase : LetterCase}
    (value : condition.value = term.text letterCase) :
    condition.toCpp "(*it)" "(*xt)" cased.groupingAttr cased.columns =
      some (condition.aggregateCpp "(*it)" cased.groupingAttr (term.aggregate letterCase)) := by
  have notColumn : ¬Column.isColumn (term.text letterCase) cased.columns = true := by
    rw [Column.isColumn_eq_true]
    rintro ⟨column, member, equal⟩
    have underscore := term.underscore_mem_text letterCase
    rw [equal] at underscore
    exact valid.plain column member underscore
  rw [Condition.toCpp, value, if_neg notColumn, if_pos (term.isAggregate_text letterCase),
    valid.ofText_term letterCase termValid]
  rfl

theorem CasedQuery.Valid.contains_quote (letterCase : LetterCase) :
    contains (term.text letterCase) "\"" = false :=
  contains_eq_false_of_mem (List.mem_singleton.mpr rfl)
    (valid.notMem_text letterCase termValid (by decide))

/-- Without `value()` the translation is shorter. -/
theorem CasedQuery.Valid.length_aggregateCpp
    {lower upper : Condition}
    (lowerValue : lower.value = term.text .lower)
    (upperValue : upper.value = term.text .upper)
    (sameColumn : upper.column = lower.column)
    (sameExp : upper.exp = lower.exp)
    (average : term.func = .avg)
    (elsewhere : contains term.column "avg" = false) :
    (upper.aggregateCpp "(*it)" cased.groupingAttr (term.aggregate .upper)).length <
      (lower.aggregateCpp "(*it)" cased.groupingAttr (term.aggregate .lower)).length := by
  have sameKind : contains upper.value "\"" = contains lower.value "\"" := by
    rw [lowerValue, upperValue, valid.contains_quote termValid, valid.contains_quote termValid]
  have sameOperand : upper.operand "(*it)" = lower.operand "(*it)" := by
    rw [Condition.operand, Condition.operand, sameColumn]
  have sameGroup : (term.aggregate .upper).group = (term.aggregate .lower).group := rfl
  have lowerAverage : contains lower.value "avg" = true := by
    rw [lowerValue, term.contains_avg_lower, decide_eq_true average, Bool.true_or]
  have upperAverage : contains upper.value "avg" = false := by
    rw [upperValue, term.contains_avg_upper, elsewhere]
  have field := term.respelled_toVar.length_eq
  have suffix : ".value()".toList.length = 8 := by decide
  simp only [Condition.aggregateCpp, sameGroup, sameOperand, lowerAverage, upperAverage,
    Bool.false_eq_true, if_false, if_true]
  apply length_between
  apply length_compareWith sameExp sameKind
  simp only [List.length_append, field, suffix, List.length_nil]
  omega

/-- An atom over an aggregate differs exactly for averages. -/
theorem CasedQuery.Valid.compared_aggregate
    {lower upper : Condition}
    {operator : CmpOp}
    (lowerValue : lower.value = term.text .lower)
    (upperValue : upper.value = term.text .upper)
    (sameColumn : upper.column = lower.column)
    (column : Respelled lower.column lower.column)
    (sameExp : upper.exp = lower.exp)
    (isExp : lower.exp = operator.exp) :
    CaseCompared (AtomOperand.AverageFits (.aggregate term))
      (lower.aggregateCpp "(*it)" cased.groupingAttr (term.aggregate .lower))
      (upper.aggregateCpp "(*it)" cased.groupingAttr (term.aggregate .upper)) := by
  constructor
  · intro fits
    have sameKind : contains upper.value "\"" = contains lower.value "\"" := by
      rw [lowerValue, upperValue, valid.contains_quote termValid, valid.contains_quote termValid]
    have sameAverage : contains upper.value "avg" = contains lower.value "avg" := by
      rw [lowerValue, upperValue, term.contains_avg_lower, term.contains_avg_upper]
      by_cases average : term.func = .avg
      · rw [fits average, Bool.or_true]
      · rw [decide_eq_false average, Bool.false_or]
    exact respelled_aggregateCpp valid.respelled_attrs sameColumn column sameExp
      (isExp ▸ Respelled.exp operator) sameKind sameAverage rfl term.respelled_toVar
  · intro differs
    have average : term.func = .avg := by
      by_contra other
      exact differs fun isAvg => absurd isAvg other
    have elsewhere : contains term.column "avg" = false := by
      rw [Bool.eq_false_iff]
      intro inside
      exact differs fun _ => inside
    exact valid.length_aggregateCpp termValid lowerValue upperValue sameColumn sameExp average
      elsewhere

end Aggregates

/-- Atoms differ exactly for averages. -/
theorem CasedQuery.Valid.compared_atom
    {atom : CasedAtom}
    (atomValid : atom.Valid cased.columns cased.n) :
    ∃ lower upper,
      (atom.condition .lower).toCpp "(*it)" "(*xt)" cased.groupingAttr cased.columns = some lower ∧
      (atom.condition .upper).toCpp "(*it)" "(*xt)" cased.groupingAttr cased.columns = some upper ∧
      CaseCompared atom.value.AverageFits lower upper := by
  have column := valid.respelled_name atomValid.column_mem
  have formed := atomValid.value
  obtain ⟨group, name, operator, value⟩ := atom
  cases value with
  | other text =>
      obtain ⟨-, -, noName, readable⟩ := formed
      obtain ⟨guard, translated, same⟩ := valid.respelled_other
        (show Respelled (CasedAtom.condition .lower ⟨group, name, operator, .other text⟩).column _
          from column) (show _ = operator.exp from rfl) noName readable
      exact ⟨guard, guard, translated, translated, .of_renamed same⟩
  | aggregate term =>
      have lowerValue := valid.doubleQuotes_text .lower formed
      have upperValue := valid.doubleQuotes_text .upper formed
      exact ⟨_, _, valid.toCpp_aggregate formed lowerValue, valid.toCpp_aggregate formed upperValue,
        valid.compared_aggregate formed lowerValue upperValue rfl column rfl rfl⟩

end Atoms

end MfQuery
