import MfQuery.Cpp.Literal
import MfQuery.Str
import MfQuery.Structures

/-!
# Retrieving the table

The first statements of the emitted `main` select the rows of the table and
copy every column into a `sales` record. The WHERE text of the query is written
into the string literal of the SELECT statement as it is.
-/

namespace MfQuery

open Text

/-! ## The emitted statements -/

/-- Accessors of a result set. -/
inductive Accessor
  | getString
  | getInt
  | getFloat
  | getDouble
  deriving DecidableEq, Repr

/-- The accessor as written. -/
def Accessor.text : Accessor → Text
  | getString => "getString"
  | getInt => "getInt"
  | getFloat => "getFloat"
  | getDouble => "getDouble"

/-- `get_sql_res_function`. -/
def getSqlResFunction : CppType → Accessor
  | .date | .string => .getString
  | .int64 => .getInt
  | .float => .getFloat
  | .double => .getDouble
  | .raw | .vector => .getString

/-- Assignment of one column of the current row to a new record. -/
structure FieldLoad where
  field : Text
  accessor : Accessor
  label : Text
  deriving DecidableEq, Repr

/-- The assignment as written. -/
def FieldLoad.text (load : FieldLoad) : Text :=
  "\t\tentry->" ++ load.field ++ " = res->" ++ load.accessor.text ++ "(\"" ++ load.label ++
    "\");\n"

/-- The assignments of all columns. -/
def fieldLoads (columns : List Column) : List FieldLoad :=
  columns.map fun column => ⟨column.name, getSqlResFunction column.ctype, column.name⟩

/-- `TABLE`. -/
def tableName : Text := "test"

/-- `DATABASE`. -/
def databaseName : Text := "CS562"

/-- The statement sent to the server. -/
def selectStatement (whereText : Text) : Text :=
  "SELECT * FROM " ++ tableName ++ " WHERE " ++ whereText

/-- `data_retrieval`. -/
def dataRetrieval (columns : List Column) (whereText : Text) : Text :=
  "\tSQLConn* conn = new SQLConn(\"" ++ databaseName ++ "\");\n" ++
    "\tres = conn->fetch(\"SELECT * FROM " ++ tableName ++ " WHERE " ++ whereText ++ "\");\n" ++
    "\tvector<struct sales*>* data = new vector<struct sales*>();\n" ++
    "\twhile(res->next())\x7b\n" ++
    "\t\tstruct sales* entry = (struct sales*)calloc(1,sizeof(struct sales));\n" ++
    (fieldLoads columns).flatMap FieldLoad.text ++
    "\t\tdata->push_back(entry);\n" ++ "\t\x7d\n" ++ "\tdelete res;\n"

/-! ## The argument of `fetch` -/

/-- The text behind the first occurrence of another one. -/
def behind (part text : Text) : Option Text :=
  (find text part).map fun index => text.drop (index + part.length)

/-- The argument of `fetch` is one string literal, and it denotes the
statement. -/
def Fetches (code statement : Text) : Prop :=
  ∃ argument rest, behind "conn->fetch(" (Cpp.translated code) = some argument ∧
    Cpp.readLiteral argument = some (Cpp.bytes statement, ')' :: rest)

/-- The emitted code up to the argument of `fetch`. -/
def fetchStart : Text :=
  "\tSQLConn* conn = new SQLConn(\"" ++ databaseName ++ "\");\n" ++ "\tres = conn->fetch("

/-- The emitted code behind it. -/
def fetchEnd (columns : List Column) : Text :=
  "\tvector<struct sales*>* data = new vector<struct sales*>();\n" ++
    "\twhile(res->next())\x7b\n" ++
    "\t\tstruct sales* entry = (struct sales*)calloc(1,sizeof(struct sales));\n" ++
    (fieldLoads columns).flatMap FieldLoad.text ++
    "\t\tdata->push_back(entry);\n" ++ "\t\x7d\n" ++ "\tdelete res;\n"

theorem dataRetrieval_eq
    (columns : List Column)
    (whereText : Text) :
    dataRetrieval columns whereText =
      fetchStart ++ '"' :: (selectStatement whereText ++
        '"' :: ')' :: ';' :: '\n' :: fetchEnd columns) := by
  have opens : "\tres = conn->fetch(\"SELECT * FROM ".toList =
      "\tres = conn->fetch(".toList ++ '"' :: "SELECT * FROM ".toList := by decide
  have closes : "\");\n".toList = ['"', ')', ';', '\n'] := by decide
  unfold dataRetrieval selectStatement fetchStart fetchEnd
  rw [opens, closes]
  simp only [List.append_assoc, List.cons_append, List.nil_append]

theorem behind_fetchStart (rest : Text) :
    behind "conn->fetch(" (fetchStart ++ rest) = some rest := by
  have found : find fetchStart "conn->fetch(".toList = some 46 := by decide
  have ends : fetchStart.length = 46 + "conn->fetch(".toList.length := by decide
  rw [behind, find, (strposM_singleton_append found rest).1, Option.map_some, ← ends,
    List.drop_left]

/-- The statement up to the WHERE text. -/
def selectStart : Text := "SELECT * FROM " ++ tableName ++ " WHERE "

theorem selectStatement_eq (whereText : Text) :
    selectStatement whereText = selectStart ++ whereText := rfl

/-- Only the WHERE text can be changed before the code is cut into tokens. -/
theorem translated_dataRetrieval
    (columns : List Column)
    {whereText : Text}
    (singleLine : '\n' ∉ whereText) :
    ∃ after, Cpp.translated (dataRetrieval columns whereText) =
      fetchStart ++ '"' :: (selectStatement (Cpp.replaceTrigraphs whereText) ++
        '"' :: ([')', ';'] ++ '\n' :: after)) := by
  have noQuestion : '?' ∉ fetchStart := by decide
  have noEscape : '\\' ∉ fetchStart := by decide
  have plainSelect : '?' ∉ selectStart := by decide
  have lineSelect : '\n' ∉ selectStatement (Cpp.replaceTrigraphs whereText) := by
    rw [selectStatement_eq, List.mem_append, not_or]
    exact ⟨by decide, Cpp.newline_notMem_replaceTrigraphs singleLine⟩
  refine ⟨Cpp.joinLines (Cpp.replaceTrigraphs (fetchEnd columns)), ?_⟩
  have statement (rest : Text) : Cpp.replaceTrigraphs (selectStatement whereText ++ '"' :: rest) =
      selectStatement (Cpp.replaceTrigraphs whereText) ++ '"' :: Cpp.replaceTrigraphs rest := by
    rw [selectStatement_eq, selectStatement_eq, List.append_assoc,
      Cpp.replaceTrigraphs_append_plain plainSelect,
      Cpp.replaceTrigraphs_append whereText (by decide), ← List.append_assoc]
  have closing (rest : Text) : Cpp.joinLines ('"' :: ')' :: ';' :: '\n' :: rest) =
      '"' :: ')' :: ';' :: '\n' :: Cpp.joinLines rest :=
    Cpp.joinLines_append_plain (by decide : '\\' ∉ ['"', ')', ';', '\n']) rest
  have opening (rest : Text) : Cpp.joinLines ('"' :: rest) = '"' :: Cpp.joinLines rest :=
    Cpp.joinLines_append_plain (by decide : '\\' ∉ ['"']) rest
  rw [Cpp.translated, dataRetrieval_eq, Cpp.replaceTrigraphs_append_plain noQuestion,
    Cpp.replaceTrigraphs_cons (by decide), statement, Cpp.replaceTrigraphs_cons (by decide),
    Cpp.replaceTrigraphs_cons (by decide), Cpp.replaceTrigraphs_cons (by decide),
    Cpp.joinLines_append_plain noEscape, opening, Cpp.joinLines_append lineSelect (by decide),
    closing]
  rfl

/-- The statement sent to the server is the one the query asks for exactly when
its WHERE text has no quote, no backslash and no trigraph. -/
theorem where_text_quoted_iff
    (columns : List Column)
    (whereText : Text)
    (singleLine : '\n' ∉ whereText) :
    Fetches (dataRetrieval columns whereText) (selectStatement whereText) ↔
      '"' ∉ whereText ∧ '\\' ∉ whereText ∧ ¬Cpp.HasTrigraph whereText := by
  obtain ⟨after, code⟩ := translated_dataRetrieval columns singleLine
  have ⟨notLonger, shorter⟩ := Cpp.length_bytes_replaceTrigraphs whereText
  have statementLength (text : Text) : (Cpp.bytes (selectStatement text)).length =
      (Cpp.bytes selectStart).length + (Cpp.bytes text).length := by
    rw [selectStatement_eq, Cpp.bytes_append, List.length_append]
  unfold Fetches
  rw [code]
  simp only [behind_fetchStart, Option.some.injEq]
  constructor
  · rintro ⟨_, rest, rfl, read⟩
    obtain ⟨noQuote, noEscape, same⟩ := Cpp.readLiteral_long (by decide) read (by
      rw [statementLength, statementLength whereText]
      omega)
    have noTrigraph : ¬Cpp.HasTrigraph whereText := by
      intro hasTrigraph
      have less := shorter hasTrigraph
      have length := congrArg List.length same
      rw [statementLength, statementLength (Cpp.replaceTrigraphs whereText)] at length
      omega
    rw [Cpp.replaceTrigraphs_eq noTrigraph, selectStatement_eq, List.mem_append, not_or]
      at noQuote noEscape
    exact ⟨noQuote.2, noEscape.2, noTrigraph⟩
  · rintro ⟨noQuote, noEscape, noTrigraph⟩
    rw [Cpp.replaceTrigraphs_eq noTrigraph]
    refine ⟨_, ';' :: '\n' :: after, rfl, ?_⟩
    apply Cpp.readLiteral_plain
    intro character member
    have front : selectStart.all
        (fun other => decide (other ≠ '"' ∧ other ≠ '\\' ∧ other ≠ '\n')) = true := by decide
    rw [selectStatement_eq] at member
    rcases List.mem_append.mp member with inFront | inWhere
    · exact of_decide_eq_true (List.all_eq_true.mp front character inFront)
    · refine ⟨?_, ?_, ?_⟩ <;> rintro rfl
      · exact noQuote inWhere
      · exact noEscape inWhere
      · exact singleLine inWhere

/-- A WHERE text with single quotes is sent as it stands. -/
theorem where_text_quoted_cust :
    Fetches (dataRetrieval [⟨"cust", .varchar⟩] "cust='Bloom'")
      (selectStatement "cust='Bloom'") :=
  (where_text_quoted_iff [⟨"cust", .varchar⟩] "cust='Bloom'" (by decide)).mpr
    ⟨by decide, by decide, by
      rintro ⟨third, -, inside⟩
      exact absurd (inside.subset (List.mem_cons_self ..)) (by decide)⟩

/-- With double quotes the literal ends in front of the customer's name. -/
theorem where_text_ends_literal :
    ∃ (columns : List Column) (whereText : Text), '\n' ∉ whereText ∧
      ¬Fetches (dataRetrieval columns whereText) (selectStatement whereText) := by
  refine ⟨[⟨"cust", .varchar⟩], "cust=\"Bloom\"", by decide, ?_⟩
  obtain ⟨after, code⟩ := translated_dataRetrieval [⟨"cust", .varchar⟩]
    (by decide : '\n' ∉ "cust=\"Bloom\"".toList)
  rintro ⟨argument, rest, isArgument, read⟩
  rw [code, behind_fetchStart, Option.some.injEq] at isArgument
  subst isArgument
  have ⟨noQuote, _, _⟩ := Cpp.readLiteral_long (by decide) read (by decide)
  exact noQuote (by decide)

end MfQuery
