import MfQuery.Spelling.Written

/-!
# Classifying the select list

`getSelectAggregates` tells columns and aggregates apart by their underscores,
and the constructor of `Aggregate` cuts at underscores again; neither looks at
the columns of the table. Entries over the table come out as what they are
exactly when no underscore of a column name is in the way.
-/

namespace MfQuery

open Text

namespace SelectEntry

/-- The column an entry is about. -/
def columnName : SelectEntry → Text
  | column name => name
  | aggregate term => term.column

/-- No underscore is in the way: none in a plain column, and in the column of
an aggregate none but its first and its last character. The group is an
`int`. -/
def Clear : SelectEntry → Prop
  | column name => '_' ∉ name
  | aggregate term => '_' ∉ term.column.tail.dropLast ∧ term.group < 2 ^ 31

end SelectEntry

/-- Columns and aggregates come out as they are, in order. -/
structure Classified (entries : List SelectEntry) : Prop where
  columns : getSelectColumns (entries.map (SelectEntry.text .lower)) =
    entries.filterMap SelectEntry.column?
  aggregates : getSelectAggregates (entries.map (SelectEntry.text .lower)) =
    some ((entries.filterMap SelectEntry.term?).map (AggregateTerm.aggregate .lower))

/-! ## One aggregate -/

theorem atoi_numeral_eq_iff (value : Nat) :
    atoi (numeral value) = (value : Int) ↔ value < 2 ^ 31 := by
  constructor
  · intro same
    have below := Int.bmod_lt (x := (value : Int)) (m := 2 ^ 32) (by decide)
    rw [atoi, dropWhile_isWhitespace_numeral, readSigned_numeral, Option.getD_some] at same
    rw [same] at below
    omega
  · exact atoi_numeral

theorem isBlank_eq_false_of_identRest
    {character : Char}
    (isRest : identRest character = true) :
    isBlank character = false := by
  rw [Bool.eq_false_iff]
  intro blank
  simp only [isBlank, Bool.or_eq_true, beq_iff_eq] at blank
  rcases blank with (rfl | rfl) | rfl <;> exact absurd isRest (by decide)

namespace AggregateTerm

section Reading

variable {term : AggregateTerm} {first : Char} {rest : Text}

/-- The pieces of a written aggregate up to its column. -/
theorem cExplode_text (shape : term.column = first :: rest) :
    cExplode '_' (term.text .lower) =
      some ((term.label.map numeral).toList ++
        term.func.text .lower :: cExplodeLoop '_' [first] rest) := by
  have func := term.func.underscore_notMem_text .lower
  cases labelled : term.label with
  | none =>
      rw [text, labelText, labelled, shape, cExplode, if_neg (by simp), List.nil_append,
        cExplodeLoop_field '_' first [] _ rest func]
      rfl
  | some label =>
      have group : '_' ∉ numeral label := notMem_numeral (by decide) _
      obtain ⟨head, tail, begins⟩ :=
        List.exists_cons_of_ne_nil (term.func.text_ne_nil .lower)
      have tailPlain : '_' ∉ tail := by
        rw [begins] at func
        exact fun member => func (List.mem_cons_of_mem _ member)
      have later := cExplodeLoop_field '_' first [head] tail rest tailPlain
      have front :=
        cExplodeLoop_field '_' head [] (numeral label) (tail ++ '_' :: first :: rest) group
      rw [text, labelText, labelled, shape, cExplode, if_neg (by simp)]
      simp only [begins, List.append_assoc, List.cons_append, List.nil_append] at front later ⊢
      rw [front, later]
      rfl

/-- The constructor reads a written aggregate exactly when no underscore cuts
its column and its group is an `int`. -/
theorem ofText_text_iff
    (present : term.column ≠ [])
    (visible : ∀ character ∈ term.column, isBlank character = false) :
    Aggregate.ofText (term.text .lower) = some (term.aggregate .lower) ↔
      '_' ∉ term.column.tail.dropLast ∧ term.group < 2 ^ 31 := by
  obtain ⟨first, rest, shape⟩ := List.exists_cons_of_ne_nil present
  rw [Aggregate.ofText, cExplode_text shape, aggregate, shape, List.tail_cons]
  by_cases inside : '_' ∈ rest.dropLast
  · -- the column is cut: its piece is too short, or the group is taken for the function
    have ends : ∃ last ∈ rest.getLast?, isBlank last = false := by
      have some : rest ≠ [] := by
        rintro rfl
        simp at inside
      refine ⟨rest.getLast some, List.getLast?_eq_some_getLast some, visible _ ?_⟩
      rw [shape]
      exact List.mem_cons_of_mem _ (List.getLast_mem some)
    obtain ⟨before, piece, pieces, cut, short, shorter⟩ := cExplodeLoop_cut [first] inside ends
    simp only [cut, inside, not_true_eq_false, false_and, iff_false]
    intro read
    cases labelled : term.label with
    | none =>
        rw [labelled] at read
        cases pieces with
        | nil =>
            simp only [Option.map_none, Option.toList_none, List.nil_append, Option.some.injEq,
              Aggregate.mk.injEq] at read
            have length := congrArg List.length read.2.2
            rw [List.length_cons] at length
            omega
        | cons third pieces =>
            simp only [Option.map_none, Option.toList_none, List.nil_append, Option.some.injEq,
              Aggregate.mk.injEq] at read
            have length := congrArg List.length read.2.2
            simp only [List.singleton_append, List.length_cons] at length
            omega
    | some label =>
        rw [labelled] at read
        simp only [Option.map_some, Option.toList_some, List.cons_append, List.nil_append,
          Option.some.injEq, Aggregate.mk.injEq] at read
        obtain ⟨digit, more, numeralShape⟩ := List.exists_cons_of_ne_nil (numeral_ne_nil label)
        have isDigit : digit.isDigit = true :=
          isDigit_of_mem_numeral (numeralShape ▸ List.mem_cons_self ..)
        rw [numeralShape] at read
        have noDigit : (term.func.text .lower).all (fun character => !character.isDigit) = true := by
          cases term.func <;> decide
        rw [← read.2.1] at noDigit
        simp [isDigit] at noDigit
  · have whole := cExplodeLoop_whole [first] inside
      ⟨first, by simp, visible first (by simp [shape])⟩
    simp only [whole, inside, not_false_eq_true, true_and]
    cases labelled : term.label with
    | none =>
        have isGroup : term.group = 0 := by simp [group, labelled]
        simp [isGroup]
    | some label =>
        have isGroup : term.group = label := by simp [group, labelled]
        simp [isGroup, atoi_numeral_eq_iff]

end Reading

end AggregateTerm

/-! ## The whole list -/

namespace SelectEntry

variable (name : Text) (term : AggregateTerm) (entries : List SelectEntry)

@[simp] theorem filterMap_column?_column :
    (column name :: entries).filterMap column? = name :: entries.filterMap column? := rfl

@[simp] theorem filterMap_column?_aggregate :
    (aggregate term :: entries).filterMap column? = entries.filterMap column? := rfl

@[simp] theorem filterMap_term?_column :
    (column name :: entries).filterMap term? = entries.filterMap term? := rfl

@[simp] theorem filterMap_term?_aggregate :
    (aggregate term :: entries).filterMap term? = term :: entries.filterMap term? := rfl

end SelectEntry

section List

variable (entries : List SelectEntry)

/-- Plain columns are kept unless they have an underscore. -/
theorem getSelectColumns_text :
    getSelectColumns (entries.map (SelectEntry.text .lower)) =
      (entries.filterMap SelectEntry.column?).filter fun name => !Aggregate.isAggregate name := by
  unfold getSelectColumns
  induction entries with
  | nil => rfl
  | cons entry entries inductionHypothesis =>
      cases entry with
      | column name =>
          rw [List.map_cons, List.filter_cons, inductionHypothesis,
            SelectEntry.filterMap_column?_column, List.filter_cons]
          rfl
      | aggregate term =>
          have isAggregate := term.isAggregate_text .lower
          rw [List.map_cons, List.filter_cons, inductionHypothesis, SelectEntry.text,
            isAggregate, SelectEntry.filterMap_column?_aggregate]
          rfl

/-- Where no plain column has an underscore, the aggregates are read one after
the other. -/
theorem getSelectAggregates_text
    (plain : ∀ name ∈ entries.filterMap SelectEntry.column?, '_' ∉ name) :
    getSelectAggregates (entries.map (SelectEntry.text .lower)) =
      (entries.filterMap SelectEntry.term?).mapM fun term =>
        Aggregate.ofText (term.text .lower) := by
  have kept : (entries.map (SelectEntry.text .lower)).filter Aggregate.isAggregate =
      (entries.filterMap SelectEntry.term?).map (AggregateTerm.text .lower) := by
    induction entries with
    | nil => rfl
    | cons entry entries inductionHypothesis =>
        cases entry with
        | column name =>
            rw [SelectEntry.filterMap_column?_column, List.forall_mem_cons] at plain
            have notAggregate : ¬Aggregate.isAggregate name = true := by simpa using plain.1
            rw [List.map_cons, SelectEntry.text, List.filter_cons_of_neg notAggregate,
              inductionHypothesis plain.2, SelectEntry.filterMap_term?_column]
        | aggregate term =>
            rw [SelectEntry.filterMap_column?_aggregate] at plain
            rw [List.map_cons, SelectEntry.text,
              List.filter_cons_of_pos (term.isAggregate_text .lower), inductionHypothesis plain,
              SelectEntry.filterMap_term?_aggregate, List.map_cons]
  rw [getSelectAggregates, kept, List.mapM_map]
  rfl

end List

/-- Entries over a table come out as columns and aggregates as they are exactly
when no underscore of a column name is in the way. -/
theorem select_entries_classified_iff
    (columns : List Column)
    (names : ∀ column ∈ columns,
      column.name ≠ [] ∧ ∀ character ∈ column.name, identRest character = true)
    (entries : List SelectEntry)
    (overTable : ∀ entry ∈ entries, ∃ column ∈ columns, column.name = entry.columnName) :
    Classified entries ↔ ∀ entry ∈ entries, entry.Clear := by
  have columnsIff : getSelectColumns (entries.map (SelectEntry.text .lower)) =
      entries.filterMap SelectEntry.column? ↔
        ∀ name ∈ entries.filterMap SelectEntry.column?, '_' ∉ name := by
    rw [getSelectColumns_text, List.filter_eq_self]
    apply forall₂_congr
    intro name _
    rw [Bool.not_eq_true', ← Bool.not_eq_true, Aggregate.isAggregate_eq_true]
  have read (term : AggregateTerm) (member : .aggregate term ∈ entries) :
      Aggregate.ofText (term.text .lower) = some (term.aggregate .lower) ↔
        (SelectEntry.aggregate term).Clear := by
    obtain ⟨column, inTable, same⟩ := overTable _ member
    obtain ⟨present, characters⟩ := names column inTable
    have sameColumn : column.name = term.column := same
    rw [sameColumn] at present characters
    exact term.ofText_text_iff present
      fun character inside => isBlank_eq_false_of_identRest (characters character inside)
  constructor
  · rintro ⟨sameColumns, sameAggregates⟩
    have plain := columnsIff.mp sameColumns
    rw [getSelectAggregates_text entries plain, mapM_eq_some_map_iff] at sameAggregates
    intro entry member
    cases entry with
    | column name => exact plain name (List.mem_filterMap.mpr ⟨_, member, rfl⟩)
    | aggregate term =>
        exact (read term member).mp
          (sameAggregates term (List.mem_filterMap.mpr ⟨_, member, rfl⟩))
  · intro clear
    have plain : ∀ name ∈ entries.filterMap SelectEntry.column?, '_' ∉ name := by
      intro name member
      obtain ⟨entry, inEntries, isColumn⟩ := List.mem_filterMap.mp member
      cases entry with
      | column other =>
          cases isColumn
          exact clear _ inEntries
      | aggregate term => cases isColumn
    refine ⟨columnsIff.mpr plain, ?_⟩
    rw [getSelectAggregates_text entries plain, mapM_eq_some_map_iff]
    intro term member
    obtain ⟨entry, inEntries, isTerm⟩ := List.mem_filterMap.mp member
    cases entry with
    | column name => cases isTerm
    | aggregate other =>
        cases isTerm
        exact (read _ inEntries).mpr (clear _ inEntries)

/-- A table with an underscore in one of its names. -/
def pricedColumns : List Column := [⟨"cust", .varchar⟩, ⟨"unit_price", .int⟩]

theorem named_pricedColumns :
    ∀ column ∈ pricedColumns,
      column.name ≠ [] ∧ ∀ character ∈ column.name, identRest character = true := by
  intro column member
  rcases List.mem_pair.mp member with rfl | rfl
  · exact ⟨by decide, List.all_eq_true.mp (by decide)⟩
  · exact ⟨by decide, List.all_eq_true.mp (by decide)⟩

/-- A select list that keeps clear of it. -/
theorem select_entries_classified_cust :
    Classified [.column "cust", .aggregate ⟨some 1, .sum, "cust"⟩] :=
  (select_entries_classified_iff pricedColumns named_pricedColumns _ (by decide)).mpr (by
    intro entry member
    rcases List.mem_cons.mp member with rfl | later
    · exact (by decide : '_' ∉ "cust".toList)
    · rw [List.mem_singleton.mp later]
      exact ⟨by decide, by decide⟩)

/-- The column `unit_price` is taken for an aggregate, and the sum over it for
the sum of another column. -/
theorem select_entries_misclassified :
    ∃ (columns : List Column) (entries : List SelectEntry),
      (∀ column ∈ columns,
        column.name ≠ [] ∧ ∀ character ∈ column.name, identRest character = true) ∧
      (∀ entry ∈ entries, ∃ column ∈ columns, column.name = entry.columnName) ∧
      getSelectColumns (entries.map (SelectEntry.text .lower)) = [] ∧
      getSelectAggregates (entries.map (SelectEntry.text .lower)) =
        some [⟨0, "unit", "price"⟩, ⟨0, "1", "sum"⟩] ∧
      ¬Classified entries := by
  refine ⟨pricedColumns, [.column "unit_price", .aggregate ⟨some 1, .sum, "unit_price"⟩],
    named_pricedColumns, by decide, by decide, by decide, ?_⟩
  rintro ⟨columns, -⟩
  revert columns
  decide

end MfQuery
