import MfQuery.Str

/-!
# Table columns

A column has a name and an SQL type. The type is rendered twice in C++ terms:
as a type code (`ctype`) that decides how values are fetched and compared, and
as the type name written into the emitted structures.
-/

namespace MfQuery

open Text

/-- `SQLType`. -/
inductive SqlType
  | char
  | varchar
  | text
  | blob
  | enum
  | set
  | int
  | uint
  | float
  | double
  | decimal
  | date
  | datetime
  | timestamp
  | time
  | year
  | numeric
  | money
  | real
  | bool
  deriving DecidableEq, Repr

/-- `CCppType`. -/
inductive CppType
  | string
  | int64
  | float
  | double
  | date
  | raw
  | vector
  deriving DecidableEq, Repr

/-- `Column::getCppType`. -/
def SqlType.getCppType : SqlType → CppType
  | char | varchar | text | decimal | numeric | money | real => .string
  | blob => .raw
  | enum | set => .vector
  | year | int | timestamp | uint => .int64
  | float => .float
  | double => .double
  | date | datetime | time => .date
  | bool => .int64

/-- `Column::getOutCppType` on an SQL type. -/
def SqlType.getOutCppType : SqlType → Text
  | char | varchar | text | decimal | numeric | money | real => "string"
  | blob => "uint8_t[10000]"
  | enum | set => "vector<string>"
  | year | int | timestamp | uint => "int64_t"
  | float => "float"
  | double => "double"
  | date | datetime | time => "Date"
  | bool => ""

/-- `Column::getOutCppType` on a C++ type code. -/
def CppType.getOutCppType : CppType → Text
  | string => "string"
  | int64 => "int64_t"
  | float => "float"
  | double => "double"
  | date | raw | vector => ""

/-- `Column::getType`: the first of these words that occurs in the name of a
type. -/
def SqlType.getType (type : Text) : SqlType :=
  if contains type "varchar" then .varchar
  else if contains type "char" then .char
  else if contains type "text" then .text
  else if contains type "enum" then .enum
  else if contains type "set" then .set
  else if contains type "unsigned" then .uint
  else if contains type "int" then .int
  else if contains type "float" then .float
  else if contains type "double" then .double
  else if contains type "decimal" then .decimal
  else if contains type "datetime" then .datetime
  else if contains type "timestamp" then .timestamp
  else if contains type "time" then .time
  else if contains type "date" then .date
  else if contains type "year" then .year
  else if contains type "blob" then .blob
  else if contains type "numeric" then .numeric
  else if contains type "money" then .money
  else if contains type "real" then .real
  else .bool

/-- A column of the queried table. -/
structure Column where
  name : Text
  type : SqlType
  deriving DecidableEq, Repr

namespace Column

/-- The constructor from the name of a type. -/
def ofType (name type : Text) : Column := ⟨name, SqlType.getType type⟩

/-- The C++ type code of a column. -/
def ctype (column : Column) : CppType := column.type.getCppType

/-- `Column::isColumn`: some column has exactly this name. -/
def isColumn (col : Text) (columns : List Column) : Bool :=
  columns.any fun column => decide (col = column.name)

/-- `Column::hasColumn`: some column name occurs inside the text. -/
def hasColumn (col : Text) (columns : List Column) : Bool :=
  columns.any fun column => contains col column.name

@[simp] theorem isColumn_eq_true
    (col : Text)
    (columns : List Column) :
    isColumn col columns = true ↔ ∃ column ∈ columns, col = column.name := by
  simp [isColumn]

@[simp] theorem hasColumn_eq_true
    (col : Text)
    (columns : List Column) :
    hasColumn col columns = true ↔ ∃ column ∈ columns, column.name <:+: col := by
  simp [hasColumn]

/-- A text that is a column name has a column name inside it. -/
theorem hasColumn_of_isColumn
    {col : Text}
    {columns : List Column}
    (isColumn : isColumn col columns = true) :
    hasColumn col columns = true := by
  rw [isColumn_eq_true] at isColumn
  obtain ⟨column, member, rfl⟩ := isColumn
  rw [hasColumn_eq_true]
  exact ⟨column, member, List.infix_refl _⟩

end Column
end MfQuery
