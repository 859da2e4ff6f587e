import MfQuery.Lib.Partial
import MfQuery.Structures

/-!
# Emitted helper functions

`vfind<i>` finds the position of a key in the vector of group `i`,
`is_unique` tests a row against the rows kept so far and `get_uniques` keeps
the first row of every key. Their comparisons are generated from the grouping
attributes and the type code found for each of them.
-/

namespace MfQuery

open Text

/-- `struct ct`: a grouping attribute and its type code. -/
structure Ct where
  name : Text
  type : CppType
  deriving DecidableEq, Repr

/-- One entry of `get_ct`: the type of the first column whose name occurs
inside the attribute. Without such a column the type stays uninitialised. -/
def getCtEntry (columns : List Column) (name : Text) : Option Ct :=
  (columnInside name columns).map fun column => ⟨name, column.ctype⟩

/-- `get_ct`. -/
def getCt (attributes : List Text) (columns : List Column) : Option (List Ct) :=
  attributes.mapM (getCtEntry columns)

/-- A parameter of the lookups. -/
theorem getCtEntry_eq_some
    {columns : List Column}
    {name : Text}
    {col : Ct}
    (entry : getCtEntry columns name = some col) :
    ∃ first, columnInside name columns = some first ∧ col = ⟨name, first.ctype⟩ := by
  obtain ⟨first, found, rfl⟩ := Option.map_eq_some_iff.mp entry
  exact ⟨first, found, rfl⟩

section GetCt

variable {attributes : List Text} {columns : List Column} {cols : List Ct}

/-- The grouping attributes of the typed key columns. -/
theorem map_name_getCt
    (found : getCt attributes columns = some cols) :
    cols.map Ct.name = attributes := by
  unfold getCt at found
  induction attributes generalizing cols with
  | nil =>
      cases found
      rfl
  | cons attr attributes inductionHypothesis =>
      simp only [List.mapM_cons, Option.bind_eq_bind, Option.bind_eq_some_iff] at found
      obtain ⟨col, entry, rest, later, result⟩ := found
      cases result
      obtain ⟨_, -, rfl⟩ := getCtEntry_eq_some entry
      rw [List.map_cons, inductionHypothesis later]

theorem eq_of_mem_getCt
    (found : getCt attributes columns = some cols)
    {col : Ct}
    (member : col ∈ cols) :
    getCtEntry columns col.name = some col := by
  obtain ⟨attr, -, entry⟩ := exists_entry_of_mem found member
  obtain ⟨_, -, rfl⟩ := getCtEntry_eq_some entry
  exact entry

end GetCt

/-- Types that keys can be compared at; the others throw. -/
def CppType.comparable : CppType → Bool
  | string | int64 | float | double => true
  | date | raw | vector => false

/-- Comparison of one key column with the one of the visited record. -/
def keyComparison (left : Text) (col : Ct) : Text :=
  match col.type with
  | .string => left ++ ".compare((*it)->" ++ col.name ++ ") == 0"
  | _ => left ++ " == " ++ "(*it)->" ++ col.name

/-- Comparisons joined by `&&`. -/
def joinAnd : List Text → Text
  | [] => []
  | [comparison] => comparison
  | comparison :: next :: rest => comparison ++ " && " ++ joinAnd (next :: rest)

/-- Text of `vfind<i>`. -/
def vfindText (i : Nat) (cols : List Ct) : Text :=
  "int vfind" ++ itoa i ++ "(vector<struct group" ++ itoa i ++ "*>* data " ++
    cols.flatMap (fun col => (", " ++ col.type.getOutCppType ++ " " ++ col.name : Text)) ++
    ")\x7b\n" ++ "\t size_t index = 0;\n" ++
    "\tfor(vector<struct group" ++ itoa i ++
    "*>::iterator it = data->begin(); it != data->end(); it++)\x7b\n" ++
    "\t\tif(" ++ joinAnd (cols.map fun col => keyComparison col.name col) ++ ")\x7b\n" ++
    "\t\t\treturn index;\n" ++ "\t\t\x7d\n" ++ "\t\tindex++;\n" ++ "\t\x7d\n" ++ "\t return -1;\n" ++
    "\x7d\n"

/-- Text of `is_unique`. -/
def isUniqueText (cols : List Ct) : Text :=
  "bool is_unique(vector<struct sales*>* data,struct sales* entry)\x7b\n" ++
    "\tfor(vector<struct sales*>::iterator it = data->begin();it != data->end();it++)\x7b\n" ++
    "\t\tif(" ++ joinAnd (cols.map fun col => keyComparison ("entry->" ++ col.name) col) ++
    ")\x7b\n" ++ "\t\t\treturn false;\n" ++ "\t\t\x7d\n" ++ "\t\x7d\n" ++ "\treturn true;\n" ++ "\x7d\n"

/-- Text of `get_uniques`. -/
def getUniquesText : Text :=
  "vector<struct sales*>* get_uniques(vector<struct sales*>* data)\x7b\n" ++
    "\tvector<struct sales*>* out = new vector<struct sales*>();\n" ++
    "\tfor(vector<struct sales*>::iterator it = data->begin();it != data->end();it++)\x7b\n" ++
    "\t\tif(is_unique(out,*it))\x7b\n" ++ "\t\t\tout->push_back(*it);\n" ++ "\t\t\x7d\n" ++ "\t\x7d\n" ++
    "\treturn out;\n" ++ "\x7d\n"

/-- `get_helpers`. -/
def getHelpers
    (noGroupingVars : Nat)
    (groupingAttr : List Text)
    (columns : List Column) : Option Text := do
  let cols ← getCt groupingAttr columns
  if cols.all fun col => col.type.comparable then
    some ((List.range (noGroupingVars + 1)).flatMap (fun i => vfindText i cols) ++
      isUniqueText cols ++ getUniquesText)
  else none

end MfQuery
