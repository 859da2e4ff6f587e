import MfQuery.Program.Prelim
import MfQuery.Retrieval

/-!
# Loading the table

The emitted program copies every row of the result set into a `sales` record,
column by column. The accessor of a column is chosen by its type code, and
integers of every width are read by `getInt`, which returns 32 bits.
-/

namespace MfQuery

open Text

/-! ## The connector -/

/-- The accessors of a result set at its current row. -/
structure ResultRow where
  getString : Text → Value
  getInt : Text → Value
  getFloat : Text → Value
  getDouble : Text → Value

/-- Calling an accessor. -/
def ResultRow.get (row : ResultRow) : Accessor → Text → Value
  | .getString => row.getString
  | .getInt => row.getInt
  | .getFloat => row.getFloat
  | .getDouble => row.getDouble

/-- What the connector promises: strings are returned as they are stored,
integers reduced to 32 bits. -/
structure Delivers (stored : Row) (row : ResultRow) : Prop where
  getString : ∀ label text, stored label = .str text → row.getString label = .str text
  getInt : ∀ label value, stored label = .int value → row.getInt label = .int (wrap32 value)

/-! ## Records -/

/-- Execution of an assignment. -/
def FieldLoad.exec (row : ResultRow) (entry : Record) (load : FieldLoad) : Record :=
  entry.set load.field (row.get load.accessor load.label)

/-- The record built for one row. -/
def loadRecord (columns : List Column) (row : ResultRow) : Record :=
  (fieldLoads columns).foldl (FieldLoad.exec row) calloc

/-- Assignments to other fields leave a field alone. -/
theorem foldl_exec_of_notMem
    {loads : List FieldLoad}
    {field : Text}
    (absent : field ∉ loads.map FieldLoad.field)
    (row : ResultRow)
    (entry : Record) :
    loads.foldl (FieldLoad.exec row) entry field = entry field := by
  induction loads generalizing entry with
  | nil => rfl
  | cons load loads inductionHypothesis =>
      rw [List.map_cons, List.mem_cons, not_or] at absent
      rw [List.foldl_cons, inductionHypothesis absent.2, FieldLoad.exec,
        Record.set_of_ne absent.1]

/-- Every column of the record is read by its accessor. -/
theorem loadRecord_eq
    {columns : List Column}
    (distinct : (columns.map Column.name).Nodup)
    {column : Column}
    (inTable : column ∈ columns)
    (row : ResultRow) :
    loadRecord columns row column.name =
      row.get (getSqlResFunction column.ctype) column.name := by
  unfold loadRecord
  generalize calloc = entry
  induction columns generalizing entry with
  | nil => cases inTable
  | cons first columns inductionHypothesis =>
      rw [List.map_cons, List.nodup_cons] at distinct
      rw [fieldLoads, List.map_cons, List.foldl_cons]
      rcases List.mem_cons.mp inTable with rfl | later
      · have absent : column.name ∉ (fieldLoads columns).map FieldLoad.field := by
          rw [fieldLoads, List.map_map]
          exact distinct.1
        have kept := foldl_exec_of_notMem absent row
          (FieldLoad.exec row entry ⟨column.name, getSqlResFunction column.ctype, column.name⟩)
        rw [fieldLoads] at kept
        rw [kept, FieldLoad.exec, Record.set_self]
      · exact inductionHypothesis distinct.2 later _

/-! ## Tables -/

/-- A column as the information schema describes it. -/
structure TableColumn where
  name : Text
  dataType : Text
  deriving DecidableEq, Repr

namespace TableColumn

/-- The column built from the description. -/
def column (described : TableColumn) : Column := Column.ofType described.name described.dataType

/-- The types `int` and `bigint`. -/
def IsInteger (described : TableColumn) : Prop :=
  described.dataType = "int".toList ∨ described.dataType = "bigint".toList

theorem ctype_of_isInteger
    {described : TableColumn}
    (integer : described.IsInteger) :
    described.column.ctype = .int64 := by
  have byType : described.column.ctype = (SqlType.getType described.dataType).getCppType := rfl
  rw [byType]
  rcases integer with isInt | isBigint
  · rw [isInt]
    decide
  · rw [isBigint]
    decide

end TableColumn

/-- A row stores 64-bit integers in the integer columns and texts in the string
columns. -/
structure StoredIn (table : List TableColumn) (row : Row) : Prop where
  integer : ∀ described ∈ table, described.IsInteger →
    ∃ value, row described.name = .int value ∧ -2 ^ 63 ≤ value ∧ value < 2 ^ 63
  string : ∀ described ∈ table, described.column.ctype = .string →
    ∃ text, row described.name = .str text

/-- The key attributes are integer or string columns, and their values are
compared at the type of their column; at another type the comparison does not
compile. -/
def KeysCompared (table : List TableColumn) (groupingAttr : List Text) : Prop :=
  ∀ attr ∈ groupingAttr, ∃ described ∈ table, described.name = attr ∧
    (described.IsInteger ∨ described.column.ctype = .string) ∧
    getCtEntry (table.map TableColumn.column) attr = some ⟨attr, described.column.ctype⟩

section Loaded

variable (connector : Row → ResultRow) (table : List TableColumn) (rows : List Row)

/-- The `sales` record of a stored row. -/
def salesRecord (row : Row) : Record :=
  loadRecord (table.map TableColumn.column) (connector row)

/-- The records have the stored integers, and no two rows with different keys
fall into one group. -/
structure LoadedWhole : Prop where
  integers : ∀ row ∈ rows, ∀ described ∈ table, described.IsInteger →
    salesRecord connector table row described.name = row described.name
  keys : ∀ groupingAttr cols, KeysCompared table groupingAttr →
    getCt groupingAttr (table.map TableColumn.column) = some cols →
    ∀ left ∈ rows, ∀ right ∈ rows, keyOf groupingAttr left ≠ keyOf groupingAttr right →
      ∀ kept ∈ getUniques cols (rows.map (salesRecord connector table)),
        ¬(sameKey cols (salesRecord connector table left) kept = true ∧
          sameKey cols (salesRecord connector table right) kept = true)

end Loaded

/-! ## Integers -/

theorem wrap32_eq_iff (value : Int) :
    wrap32 value = value ↔ -2 ^ 31 ≤ value ∧ value < 2 ^ 31 := by
  constructor
  · intro same
    have lower : -(2 ^ 32 : Nat) / 2 ≤ wrap32 value := Int.le_bmod (by decide)
    have upper : wrap32 value < ((2 ^ 32 : Nat) + 1) / 2 := Int.bmod_lt (by decide)
    rw [same] at lower upper
    constructor
    · omega
    · omega
  · rintro ⟨lower, upper⟩
    exact wrap32_of_bounds lower upper

section Loaded

variable {connector : Row → ResultRow} {table : List TableColumn}

theorem nodup_column_names
    (distinct : (table.map TableColumn.name).Nodup) :
    ((table.map TableColumn.column).map Column.name).Nodup := by
  rw [List.map_map]
  exact distinct

/-- An integer column of a record holds the stored integer, reduced to 32 bits. -/
theorem salesRecord_integer
    {row : Row}
    (delivers : Delivers row (connector row))
    (distinct : (table.map TableColumn.name).Nodup)
    {described : TableColumn}
    (inTable : described ∈ table)
    (integer : described.IsInteger)
    {value : Int}
    (stored : row described.name = .int value) :
    salesRecord connector table row described.name = .int (wrap32 value) := by
  have loaded := loadRecord_eq (nodup_column_names distinct)
    (List.mem_map_of_mem inTable) (connector row)
  rw [TableColumn.ctype_of_isInteger integer] at loaded
  exact loaded.trans (delivers.getInt described.name value stored)

/-- A string column of a record holds the stored text. -/
theorem salesRecord_string
    {row : Row}
    (delivers : Delivers row (connector row))
    (distinct : (table.map TableColumn.name).Nodup)
    {described : TableColumn}
    (inTable : described ∈ table)
    (string : described.column.ctype = .string)
    {text : Text}
    (stored : row described.name = .str text) :
    salesRecord connector table row described.name = .str text := by
  have loaded := loadRecord_eq (nodup_column_names distinct)
    (List.mem_map_of_mem inTable) (connector row)
  rw [string] at loaded
  exact loaded.trans (delivers.getString described.name text stored)

/-- Records with the stored key columns are grouped by the stored keys. -/
theorem separated_of_keys_stored
    {rows : List Row}
    {groupingAttr : List Text}
    {cols : List Ct}
    (names : cols.map Ct.name = groupingAttr)
    (typed : KeyTyped cols (rows.map (salesRecord connector table)))
    (same : ∀ row ∈ rows,
      keyOf groupingAttr (salesRecord connector table row) = keyOf groupingAttr row)
    {left right : Row}
    (leftIn : left ∈ rows)
    (rightIn : right ∈ rows)
    (different : keyOf groupingAttr left ≠ keyOf groupingAttr right)
    {kept : Row}
    (unique : kept ∈ getUniques cols (rows.map (salesRecord connector table))) :
    ¬(sameKey cols (salesRecord connector table left) kept = true ∧
      sameKey cols (salesRecord connector table right) kept = true) := by
  rintro ⟨leftSame, rightSame⟩
  rw [getUniques_eq_firsts typed] at unique
  have keptIn := (FirstOccurrence.firsts_sublist _ _).subset unique
  have compared : ∀ row ∈ rows, sameKey cols (salesRecord connector table row) kept = true →
      keyOf groupingAttr row = keyOf groupingAttr kept := by
    intro row rowIn equal
    have pairTyped : KeyTyped cols [salesRecord connector table row, kept] := by
      apply typed.subset
      intro record member
      rcases List.mem_pair.mp member with rfl | rfl
      · exact List.mem_map_of_mem rowIn
      · exact keptIn
    have keys := (sameKey_eq_true_iff pairTyped).mp equal
    rw [names] at keys
    exact (same row rowIn).symm.trans keys
  exact different ((compared left leftIn leftSame).trans (compared right rightIn rightSame).symm)

/-- A record agrees with the stored row on a key column. -/
theorem salesRecord_key
    {row : Row}
    (delivers : Delivers row (connector row))
    (distinct : (table.map TableColumn.name).Nodup)
    (stored : StoredIn table row)
    {described : TableColumn}
    (inTable : described ∈ table)
    (isKey : described.IsInteger ∨ described.column.ctype = .string)
    (small : described.IsInteger → ∀ value, row described.name = .int value →
      -2 ^ 31 ≤ value ∧ value < 2 ^ 31) :
    salesRecord connector table row described.name = row described.name ∧
      (row described.name).HasType described.column.ctype := by
  rcases isKey with integer | string
  · obtain ⟨value, holds, -⟩ := stored.integer described inTable integer
    have fits := (wrap32_eq_iff value).mpr (small integer value holds)
    rw [salesRecord_integer delivers distinct inTable integer holds, holds, fits,
      TableColumn.ctype_of_isInteger integer]
    exact ⟨rfl, value, rfl⟩
  · obtain ⟨text, holds⟩ := stored.string described inTable string
    rw [salesRecord_string delivers distinct inTable string holds, holds, string]
    exact ⟨rfl, text, rfl⟩

end Loaded

/-- The integer columns are loaded without loss exactly when every integer
stored in them fits in 32 bits. -/
theorem integers_loaded_whole_iff
    (connector : Row → ResultRow)
    (delivers : ∀ row, Delivers row (connector row))
    (table : List TableColumn)
    (distinct : (table.map TableColumn.name).Nodup)
    (rows : List Row)
    (stored : ∀ row ∈ rows, StoredIn table row) :
    LoadedWhole connector table rows ↔
      ∀ row ∈ rows, ∀ described ∈ table, described.IsInteger →
        ∀ value, row described.name = .int value → -2 ^ 31 ≤ value ∧ value < 2 ^ 31 := by
  constructor
  · intro whole row rowIn described inTable integer value holds
    have loaded := whole.integers row rowIn described inTable integer
    rw [salesRecord_integer (delivers row) distinct inTable integer holds, holds,
      Value.int.injEq] at loaded
    exact (wrap32_eq_iff value).mp loaded
  · intro small
    refine ⟨?_, ?_⟩
    · intro row rowIn described inTable integer
      exact (salesRecord_key (delivers row) distinct (stored row rowIn) inTable (.inl integer)
        (small row rowIn described inTable)).1
    · intro groupingAttr cols compared found left leftIn right rightIn different kept unique
      have names := map_name_getCt found
      have agrees : ∀ col ∈ cols, ∀ row ∈ rows,
          salesRecord connector table row col.name = row col.name ∧
            (row col.name).HasType col.type ∧ (col.type = .string ∨ col.type = .int64) := by
        intro col colIn row rowIn
        have isAttr : col.name ∈ groupingAttr := names ▸ List.mem_map_of_mem colIn
        obtain ⟨described, inTable, name, isKey, type⟩ := compared col.name isAttr
        rw [eq_of_mem_getCt found colIn, Option.some.injEq] at type
        have key := salesRecord_key (delivers row) distinct (stored row rowIn) inTable isKey
          (small row rowIn described inTable)
        rw [name] at key
        refine ⟨key.1, ?_, ?_⟩
        · rw [congrArg Ct.type type]
          exact key.2
        · rw [congrArg Ct.type type]
          rcases isKey with integer | string
          · exact .inr (TableColumn.ctype_of_isInteger integer)
          · exact .inl string
      have same : ∀ row ∈ rows,
          keyOf groupingAttr (salesRecord connector table row) = keyOf groupingAttr row := by
        intro row rowIn
        rw [← names, keyOf, keyOf, List.map_map, List.map_map, List.map_inj_left]
        exact fun col colIn => (agrees col colIn row rowIn).1
      have typed : KeyTyped cols (rows.map (salesRecord connector table)) := by
        intro col colIn
        refine ⟨(agrees col colIn left leftIn).2.2, ?_⟩
        intro record recordIn
        obtain ⟨row, rowIn, rfl⟩ := List.mem_map.mp recordIn
        obtain ⟨equal, hasType, -⟩ := agrees col colIn row rowIn
        rw [equal]
        exact hasType
      exact separated_of_keys_stored names typed same leftIn rightIn different unique

/-! ## A table with a wide column -/

/-- The accessors at a stored row. -/
def storedResult (row : Row) : ResultRow where
  getString := row
  getInt label := .int (wrap32 (row label).asInt)
  getFloat := row
  getDouble := row

theorem delivers_storedResult (row : Row) : Delivers row (storedResult row) where
  getString := fun _ _ holds => holds
  getInt := fun label value holds => by
    change Value.int (wrap32 (row label).asInt) = .int (wrap32 value)
    rw [holds, Value.asInt]

/-- A table of accounts with balances. -/
def accountTable : List TableColumn :=
  [⟨"cust".toList, "varchar".toList⟩, ⟨"balance".toList, "bigint".toList⟩]

/-- An account. -/
def accountRow (balance : Int) : Row :=
  fun field => if field = "balance".toList then .int balance else .str "a".toList

theorem storedIn_accountRow
    {balance : Int}
    (lower : -2 ^ 63 ≤ balance)
    (upper : balance < 2 ^ 63) :
    StoredIn accountTable (accountRow balance) := by
  constructor
  · intro described inTable integer
    rcases List.mem_pair.mp inTable with rfl | rfl
    · exact absurd integer (by unfold TableColumn.IsInteger; decide)
    · exact ⟨balance, rfl, lower, upper⟩
  · intro described inTable string
    rcases List.mem_pair.mp inTable with rfl | rfl
    · exact ⟨"a".toList, rfl⟩
    · exact absurd string (by decide)

theorem integers_loaded_whole_small :
    (∀ row ∈ [accountRow 5, accountRow (-7)], StoredIn accountTable row) ∧
      LoadedWhole storedResult accountTable [accountRow 5, accountRow (-7)] := by
  have stored : ∀ row ∈ [accountRow 5, accountRow (-7)], StoredIn accountTable row := by
    intro row rowIn
    rcases List.mem_pair.mp rowIn with rfl | rfl
    · exact storedIn_accountRow (by decide) (by decide)
    · exact storedIn_accountRow (by decide) (by decide)
  refine ⟨stored, ?_⟩
  apply (integers_loaded_whole_iff storedResult delivers_storedResult accountTable (by decide)
    [accountRow 5, accountRow (-7)] stored).mpr
  intro row rowIn described inTable integer value holds
  rcases List.mem_pair.mp inTable with rfl | rfl
  · exact absurd integer (by unfold TableColumn.IsInteger; decide)
  · rcases List.mem_pair.mp rowIn with rfl | rfl
    · cases Value.int.inj holds
      decide
    · cases Value.int.inj holds
      decide

/-- Balances of `0` and `2 ^ 32` are loaded as one value, and their rows fall
into one group. -/
theorem wide_balances_merged :
    StoredIn accountTable (accountRow 0) ∧ StoredIn accountTable (accountRow (2 ^ 32)) ∧
      keyOf ["balance".toList] (accountRow 0) ≠ keyOf ["balance".toList] (accountRow (2 ^ 32)) ∧
      salesRecord storedResult accountTable (accountRow (2 ^ 32)) "balance".toList = .int 0 ∧
      getUniques [⟨"balance".toList, .int64⟩]
        ([accountRow 0, accountRow (2 ^ 32)].map (salesRecord storedResult accountTable)) =
          [salesRecord storedResult accountTable (accountRow 0)] ∧
      ¬LoadedWhole storedResult accountTable [accountRow 0, accountRow (2 ^ 32)] := by
  refine ⟨storedIn_accountRow (by decide) (by decide),
    storedIn_accountRow (by decide) (by decide), by decide, rfl, rfl, ?_⟩
  intro whole
  have loaded := whole.integers (accountRow (2 ^ 32)) (by simp)
    ⟨"balance".toList, "bigint".toList⟩ (by simp [accountTable]) (.inr rfl)
  exact absurd loaded (by decide)

end MfQuery
