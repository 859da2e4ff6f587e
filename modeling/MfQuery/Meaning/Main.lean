import MfQuery.Meaning.Laws
import MfQuery.Program.Load

/-!
# The emitted main function

The emitted `main` copies the rows of the result set into records, runs the
passes on them and prints a header line and the result rows. The connector
delivers integers reduced to 32 bits. On tables whose integers fit, the program
prints the answer of the query on the rows as they are stored.
-/

namespace MfQuery

open Text

/-- The line `print_mf_structure` prints first. -/
def printedHeader (selectAttribute : List Text) : Text :=
  '|' :: selectAttribute.flatMap fun name => name ++ ['|']

/-- What the emitted `main` prints for the rows of the result set. -/
def Query.mainOutput (query : Query) (results : List ResultRow) : Option (List Text) :=
  (query.output (results.map (loadRecord query.columns))).map fun lines =>
    printedHeader query.selectAttribute :: lines

/-! ## What a query reads -/

/-- A 64-bit integer or string column. -/
def TypedColumn (columns : List Column) (name : Text) : Prop :=
  ∃ column ∈ columns, column.name = name ∧ (column.ctype = .int64 ∨ column.ctype = .string)

/-- The rows agree in the integer and string columns. -/
def SameTyped (columns : List Column) (row other : Row) : Prop :=
  ∀ name, TypedColumn columns name → row name = other name

/-- Both sides of an atom are integer or string columns, or literals. -/
structure Atom.ReadsTyped (columns : List Column) (atom : Atom) : Prop where
  column : TypedColumn columns atom.column
  value : ∀ name, atom.value = .attr name ∨ (∃ sign constant, atom.value = .shifted name sign
    constant) → TypedColumn columns name

/-- The select list and the aggregates read integer and string columns; `count`
reads nothing. -/
structure Source.ReadsTyped (source : Source) : Prop where
  select : ∀ name, SelectEntry.column name ∈ source.select → TypedColumn source.columns name
  fVect : ∀ term ∈ source.fVect, term.func ≠ .count → TypedColumn source.columns term.column

section Atoms

variable {columns : List Column} {atom : Atom}

theorem Atom.Literal.readsTyped
    (literal : atom.Literal columns) :
    atom.ReadsTyped columns := by
  obtain ⟨column, inTable, name, isLiteral, -⟩ := literal
  cases value : atom.value with
  | int number =>
      rw [value] at isLiteral
      refine ⟨⟨column, inTable, name, .inl isLiteral⟩, ?_⟩
      simp [value]
  | str text =>
      rw [value] at isLiteral
      refine ⟨⟨column, inTable, name, .inr isLiteral.1⟩, ?_⟩
      simp [value]
  | attr name | shifted name sign constant =>
      rw [value] at isLiteral
      exact isLiteral.elim

theorem Atom.OfItself.readsTyped
    (ofItself : atom.OfItself columns) :
    atom.ReadsTyped columns := by
  refine ⟨ofItself.typed, ?_⟩
  rintro name (isAttr | ⟨sign, constant, isShifted⟩)
  · rw [ofItself.value_eq] at isAttr
    cases isAttr
    exact ofItself.typed
  · rw [ofItself.value_eq] at isShifted
    cases isShifted

theorem Atom.ReadsTyped.meets_eq
    (readsTyped : atom.ReadsTyped columns)
    {kept keptOther row rowOther : Row}
    (sameKept : SameTyped columns kept keptOther)
    (sameRow : SameTyped columns row rowOther) :
    atom.meets kept row = atom.meets keptOther rowOther := by
  have read := readsTyped.value
  rw [Atom.meets, Atom.meets, sameRow _ readsTyped.column]
  congr 1
  cases value : atom.value with
  | int number => rfl
  | str text => rfl
  | attr name =>
      rw [AtomValue.meant, AtomValue.meant, sameKept name (read name (.inl value))]
  | shifted name sign constant =>
      rw [AtomValue.meant, AtomValue.meant,
        sameKept name (read name (.inr ⟨sign, constant, value⟩))]

end Atoms

theorem Source.Supported.readsTyped_atom
    {source : Source}
    (supported : source.Supported)
    {line : Line}
    (inLines : line ∈ source.lines)
    {atom : Atom}
    (member : atom ∈ line.atoms) :
    atom.ReadsTyped source.columns := by
  cases mode : source.emf with
  | false => exact ((supported.mf mode line inLines).literal atom member).readsTyped
  | true =>
      rcases ((supported.emf mode).1 line inLines).atom atom member with ofItself | ⟨literal, -⟩
      · exact ofItself.readsTyped
      · exact literal.readsTyped

/-! ## Loaded rows -/

section LoadedRows

variable {source : Source} (supported : source.Supported) (readsTyped : source.ReadsTyped)
  {load : Row → Row} {table : List Row}
  (same : ∀ row ∈ table, SameTyped source.columns (load row) row)
include supported same

theorem Source.Supported.keyOf_load :
    ∀ row ∈ table, keyOf source.groupingAttr (load row) = keyOf source.groupingAttr row := by
  intro row member
  apply List.map_congr_left
  intro attr inAttrs
  obtain ⟨column, found, name, type⟩ := supported.valid.keys attr inAttrs
  exact same row member attr ⟨column, List.mem_of_find?_eq_some found, name, type⟩

theorem Source.Supported.selects_load
    (i : Nat)
    {kept : Row}
    (isKept : kept ∈ table)
    {row : Row}
    (member : row ∈ table) :
    source.selects i (load kept) (load row) = source.selects i kept row := by
  have keys := supported.keyOf_load same
  cases i with
  | zero => rw [Source.selects, Source.selects, keys kept isKept, keys row member]
  | succ i =>
      rw [Source.selects, Source.selects, keys kept isKept, keys row member]
      congr 1
      cases found : source.lines[i]? with
      | none => rfl
      | some line =>
          simp only [Option.map_some, Option.getD_some]
          apply Line.holds_congr
          intro atom inLine
          exact (supported.readsTyped_atom (List.mem_of_getElem? found) inLine).meets_eq
            (same kept isKept) (same row member)

/-- The rows selected for a loaded group are the loaded rows. -/
theorem Source.Supported.rows_load
    {kept : Row}
    (isKept : kept ∈ table)
    (i : Nat) :
    source.rows (table.map load) (load kept) i = (source.rows table kept i).map load := by
  rw [Source.rows, List.filter_map]
  congr 1
  apply List.filter_congr
  intro row member
  exact supported.selects_load same i isKept member

include readsTyped

omit supported in
theorem Source.ReadsTyped.columnValues_load
    {term : AggregateTerm}
    (member : term ∈ source.fVect)
    (sums : term.func ≠ .count)
    {rows : List Row}
    (inTable : ∀ row ∈ rows, row ∈ table) :
    columnValues term.column (rows.map load) = columnValues term.column rows := by
  rw [columnValues, columnValues, List.map_map]
  apply List.map_congr_left
  intro row inRows
  rw [Function.comp_apply, same row (inTable row inRows) term.column
    (readsTyped.fVect term member sums)]

omit supported in
/-- The values of the aggregates do not change. -/
theorem Source.ReadsTyped.value_load
    {rows : Nat → List Row}
    (inTable : ∀ i, ∀ row ∈ rows i, row ∈ table)
    {term : AggregateTerm}
    (isIn : term.In source.fVect) :
    term.value (fun i => (rows i).map load) = term.value rows := by
  obtain ⟨entry, member, -, func, column, -⟩ := isIn.exists_entry
  unfold AggregateTerm.value
  by_cases isCount : term.func = .count
  · rw [isCount]
    simp only [Func.value, List.length_map]
  · have values := readsTyped.columnValues_load same member (by rw [func]; exact isCount)
      (inTable term.group)
    rw [column] at values
    exact Func.value_eq_of_values (.of_eq values)

/-- Loaded rows give the same answer. -/
theorem Source.Supported.answer_load :
    source.answer (table.map load) = source.answer table := by
  refine Grouping.answer_map (supported.keyOf_load same)
    (fun i kept isKept row member => supported.selects_load same i isKept member)
    fun kept isKept rows inTable => ?_
  have values := fun (term : AggregateTerm) (isIn : term.In source.fVect) =>
    readsTyped.value_load same inTable isIn
  have shown : ∀ value, source.shown (load kept) value = source.shown kept value := by
    intro value
    unfold Source.shown
    congr 1
    apply List.flatMap_congr
    intro entry member
    cases entry with
    | column name =>
        rw [SelectEntry.shown, SelectEntry.shown,
          same kept isKept name (readsTyped.select name member)]
    | aggregate term => rfl
  simp only [Source.grouping, supported.valid.accepts_congr values,
    supported.valid.shown_congr values, shown]

/-- Loaded rows fit as the rows do. -/
theorem Source.Fits.loaded
    (fits : source.Fits table) :
    source.Fits (table.map load) := by
  have groups : ∀ kept ∈ firsts (keyOf source.groupingAttr) (table.map load),
      ∃ first ∈ firsts (keyOf source.groupingAttr) table, load first = kept := by
    rw [Grouping.firsts_map (supported.keyOf_load same)]
    exact fun kept => List.mem_map.mp
  have inTable : ∀ first ∈ firsts (keyOf source.groupingAttr) table, first ∈ table :=
    fun first => fun isFirst => (FirstOccurrence.firsts_sublist _ _).subset isFirst
  refine ⟨by rw [List.length_map]; exact fits.few, ?_, ?_, ?_, ?_⟩
  · intro row member column inColumns type
    obtain ⟨stored, inside, rfl⟩ := List.mem_map.mp member
    rw [same stored inside column.name ⟨column, inColumns, rfl, type⟩]
    exact fits.conforms stored inside column inColumns type
  · intro term member sums row inRows
    obtain ⟨stored, inside, rfl⟩ := List.mem_map.mp inRows
    rw [same stored inside term.column (readsTyped.fVect term member sums)]
    exact fits.integers term member sums stored inside
  · intro kept isKept term member
    obtain ⟨first, isFirst, rfl⟩ := groups kept isKept
    rw [supported.rows_load same (inTable first isFirst)]
    by_cases isCount : term.func = .count
    · rw [isCount]
      exact trivial
    · exact (fits.fits first isFirst term member).of_values (.of_eq
        (readsTyped.columnValues_load same member isCount
          fun row inside => List.mem_of_mem_filter inside).symm)
  · intro kept isKept formula written
    obtain ⟨first, isFirst, rfl⟩ := groups kept isKept
    refine supported.valid.exactOn_congr (fun term isIn => ?_) written
      (fits.exact first isFirst formula written)
    rw [show source.rows (table.map load) (load first) =
      fun i => (source.rows table first i).map load from
        funext (supported.rows_load same (inTable first isFirst))]
    exact (readsTyped.value_load same
      (fun i row inside => List.mem_of_mem_filter inside) isIn).symm

end LoadedRows

/-! ## Loading -/

/-- A record agrees with the stored row in the integer and string columns, if
the integers fit in 32 bits. -/
theorem sameTyped_loadRecord
    {columns : List Column}
    (distinct : (columns.map Column.name).Nodup)
    {stored : Row}
    {result : ResultRow}
    (delivers : Delivers stored result)
    (conforms : Conforms columns stored)
    (small : ∀ column ∈ columns, ∀ value, stored column.name = .int value →
      -2 ^ 31 ≤ value ∧ value < 2 ^ 31) :
    SameTyped columns (loadRecord columns result) stored := by
  rintro name ⟨column, inTable, rfl, type⟩
  have content := conforms column inTable type
  rw [loadRecord_eq distinct inTable]
  rcases type with isInt | isString
  · rw [isInt] at content ⊢
    obtain ⟨value, isValue, -⟩ := exists_int_of_stored content
    have fits := (wrap32_eq_iff value).mpr (small column inTable value isValue)
    rw [isValue]
    exact (delivers.getInt column.name value isValue).trans (congrArg Value.int fits)
  · rw [isString] at content ⊢
    obtain ⟨text, isText⟩ := exists_str_of_stored content
    rw [isText]
    exact delivers.getString column.name text isText

/-- On loaded records the passes print the answer of the query on the stored
rows. -/
theorem Source.Supported.output_loaded
    {source : Source}
    (supported : source.Supported)
    (readsTyped : source.ReadsTyped)
    (distinct : (source.columns.map Column.name).Nodup)
    {connector : Row → ResultRow}
    {rows : List Row}
    (delivers : ∀ row ∈ rows, Delivers row (connector row))
    (small : ∀ row ∈ rows, ∀ column ∈ source.columns, ∀ value,
      row column.name = .int value → -2 ^ 31 ≤ value ∧ value < 2 ^ 31)
    (fits : source.Fits rows) :
    source.query.output ((rows.map connector).map (loadRecord source.query.columns)) =
      some (source.answer rows) := by
  have same : ∀ row ∈ rows,
      SameTyped source.columns ((loadRecord source.columns ∘ connector) row) row :=
    fun row member => sameTyped_loadRecord distinct (delivers row member)
      (fits.conforms row member) (small row member)
  have loaded := supported.output_eq (fits.loaded supported readsTyped same)
  rw [supported.answer_load readsTyped same, ← List.map_map] at loaded
  exact loaded

/-! ## The running example -/

theorem readsTyped_saleSource
    (line : Line)
    (emf : Bool) :
    (saleSource line emf).ReadsTyped := by
  refine ⟨fun name member => ?_, fun term member _ => ?_⟩
  · rcases List.mem_pair.mp member with same | same
    · cases same
      exact ⟨⟨"cust", .varchar⟩, List.mem_cons_self .., rfl, .inr rfl⟩
    · cases same
  · rcases List.mem_pair.mp member with rfl | rfl <;>
      exact ⟨⟨"quant", .int⟩, List.mem_of_getElem? (i := 1) rfl, rfl, .inl rfl⟩

theorem small_saleTable :
    ∀ row ∈ saleTable, ∀ column ∈ saleColumns, ∀ value,
      row column.name = .int value → -2 ^ 31 ≤ value ∧ value < 2 ^ 31 := by
  intro row member column inTable value stored
  have bounded : ∀ row ∈ saleTable, ∀ column ∈ saleColumns,
      -2 ^ 31 ≤ (row column.name).asInt ∧ (row column.name).asInt < 2 ^ 31 := by decide
  have bounds := bounded row member column inTable
  rwa [stored] at bounds

end MfQuery
