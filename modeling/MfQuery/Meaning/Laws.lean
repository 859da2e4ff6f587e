import MfQuery.Meaning.Correct

/-!
# Laws of the emitted programs

What a program prints for one table and for another is related as the answers
of the query are: tables can be cut along their keys, tables without a common
key can be put one after the other, and the rows of a table can be listed in
any order.
-/

namespace MfQuery

open Text

/-- Queries whose programs print their answers. -/
structure Source.Supported (source : Source) : Prop where
  valid : source.Valid
  mf : source.emf = false → ∀ line ∈ source.lines, line.Plain source.columns
  emf : source.emf = true → (∀ line ∈ source.lines, line.Exchangeable source.columns) ∧
    ∀ term ∈ source.fVect, term.group ≠ 0

theorem Source.Supported.output_eq
    {source : Source}
    (supported : source.Supported)
    {table : List Row}
    (fits : source.Fits table) :
    source.query.output table = some (source.answer table) := by
  cases mode : source.emf with
  | false =>
      have plain := supported.mf mode
      exact fits.output_eq_answer supported.valid
        (fun term _ => source.selects_mf mode plain term.group)
        (supported.valid.meantBy_mf mode plain fits.conforms)
  | true =>
      obtain ⟨exchangeable, ofVariables⟩ := supported.emf mode
      exact fits.output_eq_answer supported.valid
        (fun term member => source.selects_emf mode (ofVariables term member))
        (supported.valid.meantBy_emf mode exchangeable fits.conforms)

theorem supported_saleSource_mf : (saleSource saleLine false).Supported where
  valid := valid_saleSource wellFormed_saleLine false
  mf _ := List.forall_mem_singleton.mpr plain_saleLine
  emf isEmf := (Bool.false_ne_true isEmf).elim

theorem supported_saleSource_emf : (saleSource othersLine true).Supported where
  valid := valid_saleSource wellFormed_othersLine true
  mf isMf := (Bool.false_ne_true isMf.symm).elim
  emf _ := ⟨List.forall_mem_singleton.mpr exchangeable_othersLine, by decide⟩

/-! ## What a result depends on -/

section Values

variable {source : Source} (valid : source.Valid) {value other : AggregateTerm → Int}
  (same : ∀ term, term.In source.fVect → value term = other term)
include valid same

/-- HAVING reads aggregates of the F-vector. -/
theorem Source.Valid.accepts_congr : source.accepts value = source.accepts other := by
  unfold Source.accepts
  cases written : source.having with
  | none => rfl
  | some formula =>
      simp only [Option.map_some, Option.getD_some, HavingFormula.meant]
      rw [HavingFormula.fold_congr_leaf (valid.having formula written).2]
      intro leaf isOver
      cases leaf with
      | constant number => rfl
      | aggregate letterCase term => rw [HavingLeaf.meant, HavingLeaf.meant, same term isOver.2]

/-- The select list shows aggregates of the F-vector. -/
theorem Source.Valid.shown_congr
    (kept : Row) :
    source.shown kept value = source.shown kept other := by
  unfold Source.shown
  congr 1
  apply List.flatMap_congr
  intro entry member
  cases entry with
  | column name => rfl
  | aggregate term =>
      rw [SelectEntry.shown, SelectEntry.shown, same term (valid.selected term member)]

/-- HAVING is exact where it is on the same values. -/
theorem Source.Valid.exactOn_congr
    {formula : HavingFormula}
    (written : source.having = some formula)
    (exact : formula.ExactOn value) :
    formula.ExactOn other := by
  unfold HavingFormula.ExactOn at exact ⊢
  rwa [HavingFormula.fold_congr_leaf (valid.having formula written).2]
  intro leaf isOver
  cases leaf with
  | constant number => rfl
  | aggregate letterCase term => rw [HavingLeaf.exactOn, HavingLeaf.exactOn, same term isOver.2]

end Values

/-! ## Parts of a table -/

/-- The line equates every grouping attribute with itself. -/
def Line.EquatesKeys (columns : List Column) (groupingAttr : List Text) (line : Line) : Prop :=
  line.Conjunction ∧ ∀ attr ∈ groupingAttr, ∃ atom ∈ line.atoms,
    atom.OfItself columns ∧ atom.operator = .eq ∧ atom.column = attr

/-- Grouping variables range over rows of the group: in an EMF query their lines
say so. -/
def Source.WithinGroups (source : Source) : Prop :=
  source.emf = true → ∀ line ∈ source.lines, line.EquatesKeys source.columns source.groupingAttr

theorem Line.EquatesKeys.keyOf_eq
    {columns : List Column}
    {groupingAttr : List Text}
    {line : Line}
    (equates : line.EquatesKeys columns groupingAttr)
    {kept row : Row}
    (holds : line.meets kept row = true) :
    keyOf groupingAttr row = keyOf groupingAttr kept := by
  obtain ⟨conjunction, equated⟩ := equates
  rw [Line.meets, conjunction.holds_eq, List.all_eq_true] at holds
  apply List.map_congr_left
  intro attr member
  obtain ⟨atom, inLine, ofItself, equality, rfl⟩ := equated attr member
  exact ofItself.eq_of_meets equality (holds atom inLine)

theorem Source.WithinGroups.isLocal
    {source : Source}
    (within : source.WithinGroups) :
    source.grouping.Local := by
  intro i kept row selected
  change source.selects i kept row = true at selected
  cases i with
  | zero => exact of_decide_eq_true selected
  | succ i =>
      rw [Source.selects, Bool.and_eq_true] at selected
      obtain ⟨sameKey, admitted⟩ := selected
      cases mode : source.emf with
      | false =>
          rw [mode, Bool.false_or] at sameKey
          exact of_decide_eq_true sameKey
      | true =>
          cases found : source.lines[i]? with
          | none => simp [found] at admitted
          | some line =>
              rw [found] at admitted
              exact (within mode line (List.mem_of_getElem? found)).keyOf_eq admitted

/-- A part of a table that keeps the rows of its groups fits as the table does. -/
theorem Source.Fits.of_part
    {source : Source}
    {table part : List Row}
    (fits : source.Fits table)
    (sublist : part.Sublist table)
    (groups : ∀ kept ∈ firsts (keyOf source.groupingAttr) part,
      kept ∈ firsts (keyOf source.groupingAttr) table ∧
        ∀ i, table.filter (source.selects i kept) = part.filter (source.selects i kept)) :
    source.Fits part where
  few := sublist.length_le.trans_lt fits.few
  conforms row member := fits.conforms row (sublist.subset member)
  integers term member sums row inPart :=
    fits.integers term member sums row (sublist.subset inPart)
  fits kept isKept term member := by
    obtain ⟨inTable, rows⟩ := groups kept isKept
    have whole := fits.fits kept inTable term member
    rwa [Source.rows, rows] at whole
  exact kept isKept formula written := by
    obtain ⟨inTable, rows⟩ := groups kept isKept
    have whole := fits.exact kept inTable formula written
    rwa [show source.rows table kept = source.rows part kept from funext rows] at whole

section Parts

variable {source : Source} (within : source.WithinGroups)
include within

theorem Source.Fits.filter
    {table : List Row}
    (fits : source.Fits table)
    (chosen : List Value → Bool) :
    source.Fits (table.filter fun row => chosen (keyOf source.groupingAttr row)) := by
  refine fits.of_part List.filter_sublist fun kept isKept => ?_
  rw [Grouping.firsts_filter] at isKept
  obtain ⟨inTable, isChosen⟩ := List.mem_filter.mp isKept
  exact ⟨inTable, fun i => (within.isLocal.filter_chosen chosen isChosen table i).symm⟩

section Append

variable {left right : List Row} (fits : source.Fits (left ++ right))
  (apart : ∀ row ∈ left, ∀ other ∈ right,
    keyOf source.groupingAttr row ≠ keyOf source.groupingAttr other)
include fits apart

theorem Source.Fits.append_left : source.Fits left := by
  refine fits.of_part (List.sublist_append_left ..) fun kept isKept => ?_
  rw [Grouping.firsts_append apart]
  exact ⟨List.mem_append_left _ isKept, within.isLocal.filter_append_left apart
    ((FirstOccurrence.firsts_sublist _ left).subset isKept)⟩

theorem Source.Fits.append_right : source.Fits right := by
  refine fits.of_part (List.sublist_append_right ..) fun kept isKept => ?_
  rw [Grouping.firsts_append apart]
  exact ⟨List.mem_append_right _ isKept, within.isLocal.filter_append_right apart
    ((FirstOccurrence.firsts_sublist _ right).subset isKept)⟩

end Append

end Parts

/-- The key of customer A. -/
def isA (key : List Value) : Bool := decide (key = [.str "A".toList])

section ColumnValues

variable {func : Func} {column : Text} {rows others : List Row}
  (permuted : (columnValues column rows).Perm (columnValues column others))
include permuted

theorem eq_nil_iff_of_values : rows = [] ↔ others = [] := by
  have lengths := permuted.length_eq
  rw [columnValues, columnValues, List.length_map, List.length_map] at lengths
  rw [← List.length_eq_zero_iff, ← List.length_eq_zero_iff, lengths]

/-- An aggregate is taken of the values of its column, in any order. -/
theorem Func.value_eq_of_values : func.value column rows = func.value column others := by
  have total : columnSum column rows = columnSum column others := permuted.sum_eq
  have lengths : rows.length = others.length := by
    simpa [columnValues] using permuted.length_eq
  cases func with
  | sum => exact total
  | count => exact congrArg Nat.cast lengths
  | avg => simp only [Func.value, total, lengths, eq_nil_iff_of_values permuted]
  | min =>
      have same : (columnValues column rows).min? = (columnValues column others).min? := by
        ext value
        simp only [List.min?_eq_some_iff, permuted.mem_iff]
      rw [Func.value, Func.value, same]
  | max =>
      have same : (columnValues column rows).max? = (columnValues column others).max? := by
        ext value
        simp only [List.max?_eq_some_iff, permuted.mem_iff]
      rw [Func.value, Func.value, same]

theorem Func.Fits.of_values
    (fits : func.Fits column rows) :
    func.Fits column others := by
  have reaches : ∀ holds : Int → Prop, (∃ row ∈ rows, holds (row column).asInt) →
      ∃ row ∈ others, holds (row column).asInt := by
    rintro holds ⟨row, member, reached⟩
    obtain ⟨other, inOthers, same⟩ := List.mem_map.mp
      (permuted.mem_iff.mp (List.mem_map_of_mem member))
    exact ⟨other, inOthers, same ▸ reached⟩
  cases func with
  | sum | avg =>
      have total : columnSum column rows = columnSum column others := permuted.sum_eq
      unfold Func.Fits at fits ⊢
      rwa [← total]
  | count => trivial
  | min => exact fits.imp (eq_nil_iff_of_values permuted).mp (reaches (· ≤ 0))
  | max => exact fits.imp (eq_nil_iff_of_values permuted).mp (reaches (0 ≤ ·))

end ColumnValues

/-- What the value of an atom takes from the group is a grouping attribute. -/
def AtomValue.OfKeys (groupingAttr : List Text) : AtomValue → Prop
  | attr name | shifted name _ _ => name ∈ groupingAttr
  | int _ | str _ => True

/-- Lines and select entries take nothing but grouping attributes from the kept
row of a group. -/
structure Source.OfKeys (source : Source) : Prop where
  lines : ∀ line ∈ source.lines, ∀ atom ∈ line.atoms, atom.value.OfKeys source.groupingAttr
  select : ∀ name, SelectEntry.column name ∈ source.select → name ∈ source.groupingAttr

section Order

variable {source : Source} (ofKeys : source.OfKeys) {kept other : Row}
  (sameKey : keyOf source.groupingAttr kept = keyOf source.groupingAttr other)
include ofKeys sameKey

theorem Source.OfKeys.selects_eq (i : Nat) : source.selects i kept = source.selects i other := by
  have agree : ∀ attr ∈ source.groupingAttr, kept attr = other attr :=
    List.map_inj_left.mp sameKey
  funext row
  cases i with
  | zero => rw [Source.selects, Source.selects, sameKey]
  | succ i =>
      rw [Source.selects, Source.selects, sameKey]
      congr 1
      cases found : source.lines[i]? with
      | none => rfl
      | some line =>
          simp only [Option.map_some, Option.getD_some]
          apply Line.holds_congr
          intro atom member
          have ofKey := ofKeys.lines line (List.mem_of_getElem? found) atom member
          rw [Atom.meets, Atom.meets]
          cases value : atom.value with
          | int number => rfl
          | str text => rfl
          | attr name =>
              rw [value] at ofKey
              rw [AtomValue.meant, AtomValue.meant, agree name ofKey]
          | shifted name sign constant =>
              rw [value] at ofKey
              rw [AtomValue.meant, AtomValue.meant, agree name ofKey]

theorem Source.OfKeys.shown_eq
    (value : AggregateTerm → Int) :
    source.shown kept value = source.shown other value := by
  have agree : ∀ attr ∈ source.groupingAttr, kept attr = other attr :=
    List.map_inj_left.mp sameKey
  unfold Source.shown
  congr 1
  apply List.flatMap_congr
  intro entry member
  cases entry with
  | column name => rw [SelectEntry.shown, SelectEntry.shown, agree name (ofKeys.select name member)]
  | aggregate term => rfl

end Order

theorem Source.OfKeys.unordered
    {source : Source}
    (ofKeys : source.OfKeys) :
    source.grouping.Unordered where
  selects_eq i kept other sameKey := ofKeys.selects_eq sameKey i
  result_eq kept other rows others sameKey permuted := by
    have values : (fun term : AggregateTerm => term.value rows) = fun term => term.value others :=
      funext fun term => Func.value_eq_of_values ((permuted term.group).map _)
    simp only [Source.grouping, values, ofKeys.shown_eq sameKey]

theorem Source.Fits.of_perm
    {source : Source}
    (ofKeys : source.OfKeys)
    {table others : List Row}
    (permuted : table.Perm others)
    (fits : source.Fits table) :
    source.Fits others := by
  have groups : ∀ kept ∈ firsts (keyOf source.groupingAttr) others,
      ∃ first ∈ firsts (keyOf source.groupingAttr) table,
        ∀ i, (source.rows table first i).Perm (source.rows others kept i) := by
    intro kept isKept
    have inTable : keyOf source.groupingAttr kept ∈
        (firsts (keyOf source.groupingAttr) table).map (keyOf source.groupingAttr) :=
      (FirstOccurrence.map_firsts_perm (keyOf source.groupingAttr) permuted).mem_iff.mpr
        (List.mem_map_of_mem isKept)
    obtain ⟨first, isFirst, sameKey⟩ := List.mem_map.mp inTable
    refine ⟨first, isFirst, fun i => ?_⟩
    rw [Source.rows, Source.rows, ofKeys.selects_eq sameKey]
    exact permuted.filter _
  refine ⟨permuted.length_eq ▸ fits.few, fun row member => ?_, fun term member sums row inside => ?_,
    fun kept isKept term member => ?_, fun kept isKept formula written => ?_⟩
  · exact fits.conforms row (permuted.mem_iff.mpr member)
  · exact fits.integers term member sums row (permuted.mem_iff.mpr inside)
  · obtain ⟨first, isFirst, rows⟩ := groups kept isKept
    exact (fits.fits first isFirst term member).of_values ((rows term.group).map _)
  · obtain ⟨first, isFirst, rows⟩ := groups kept isKept
    have values : (fun term : AggregateTerm => term.value (source.rows table first)) =
        fun term => term.value (source.rows others kept) :=
      funext fun term => Func.value_eq_of_values ((rows term.group).map _)
    rw [← values]
    exact fits.exact first isFirst formula written

theorem ofKeys_saleSource
    {line : Line}
    (ofKeys : ∀ atom ∈ line.atoms, atom.value.OfKeys ["cust"])
    (emf : Bool) :
    (saleSource line emf).OfKeys where
  lines := List.forall_mem_singleton.mpr ofKeys
  select := by
    intro name member
    rcases List.mem_pair.mp member with same | same
    · cases same
      exact List.mem_singleton.mpr rfl
    · cases same

end MfQuery
