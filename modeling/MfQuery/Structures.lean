import MfQuery.Aggregate

/-!
# Emitted structures and the result printer

The header declares `struct mf_structure` for the result rows, `struct sales`
for the table rows and one `struct group<i>` for every grouping variable. Each
declaration is a list of typed fields; the declared fields are kept apart from
their text because the other generators access them by name.
-/

namespace MfQuery

open Text

/-- One field of an emitted structure. -/
structure Field where
  type : Text
  name : Text
  deriving DecidableEq, Repr

/-- Declaration line of a field. -/
def Field.text (field : Field) : Text :=
  "\t" ++ field.type ++ " " ++ field.name ++ ";\n"

/-- First column whose name occurs inside a text. -/
def columnInside (name : Text) (columns : List Column) : Option Column :=
  columns.find? fun column => contains name column.name

/-- First column with exactly this name. -/
def columnNamed (name : Text) (columns : List Column) : Option Column :=
  columns.find? fun column => decide (name = column.name)

/-- Type name of a looked-up column; no column leaves the type empty. -/
def outTypeOf : Option Column → Text
  | none => []
  | some column => column.type.getOutCppType

/-- A field of `mf_structure`. Aggregates of string columns are declared
`int64_t`. -/
def mfField (columns : List Column) (name : Text) : Option Field :=
  let type := outTypeOf (columnInside name columns)
  if Aggregate.isAggregate name then
    (Aggregate.ofText name).map fun aggregate =>
      ⟨if type = "string".toList then "int64_t" else type, aggregate.toABSVar⟩
  else some ⟨type, name⟩

/-- Fields of `mf_structure`. -/
def mfFields (selectAttribute : List Text) (columns : List Column) : Option (List Field) :=
  selectAttribute.mapM (mfField columns)

/-- Fields of `sales`. -/
def salesFields (columns : List Column) : List Field :=
  columns.map fun column => ⟨column.type.getOutCppType, column.name⟩

/-- A plain column of the select list inside a group structure. -/
def grouperField (columns : List Column) (name : Text) : Field :=
  ⟨outTypeOf (columnNamed name columns), name⟩

/-- An aggregate inside its group structure. -/
def aggregateField (columns : List Column) (aggregate : Aggregate) : Field :=
  let found := outTypeOf (columnInside aggregate.column columns)
  let type : Text := if aggregate.func = "count".toList then "int64_t" else found
  ⟨if aggregate.isAvg then "Average<" ++ type ++ ">" else type, aggregate.toVar⟩

/-- Fields of `group<i>`: the plain columns, then the aggregates of group
`i`. -/
def groupFields
    (i : Nat)
    (columns : List Column)
    (selectColumns : List Text)
    (allAggregates : List Aggregate) : List Field :=
  selectColumns.map (grouperField columns) ++
    (allAggregates.filter fun aggregate => aggregate.group = (i : Int)).map (aggregateField columns)

/-- `create_structures`. -/
def createStructures (selectAttribute : List Text) (columns : List Column) : Option Text :=
  (mfFields selectAttribute columns).map fun fields =>
    "struct mf_structure \x7b\n" ++ fields.flatMap Field.text ++ "\x7d;\n" ++
      "struct sales\x7b\n" ++ (salesFields columns).flatMap Field.text ++ "\x7d;\n"

/-- `create_grouping_var_structs`. -/
def createGroupingVarStructs
    (no : Nat)
    (columns : List Column)
    (selectColumns : List Text)
    (allAggregates : List Aggregate) : Text :=
  (List.range (no + 1)).flatMap fun (i : Nat) =>
    ("struct group" ++ itoa i ++ "\x7b\n" ++
      (groupFields i columns selectColumns allAggregates).flatMap Field.text ++ "\x7d;\n" : Text)

/-- The result field a select entry is printed from. -/
def printedField (name : Text) : Option Text :=
  if Aggregate.isAggregate name then (Aggregate.ofText name).map Aggregate.toABSVar
  else some name

/-- `create_output_printer`. -/
def createOutputPrinter (selectAttribute : List Text) : Option Text :=
  (selectAttribute.mapM printedField).map fun fields =>
    "void print_mf_structure(vector<struct mf_structure*>* mf_struct)\x7b\n" ++ "\tcout<<\"|" ++
      selectAttribute.flatMap (fun name => (name ++ "|" : Text)) ++ "\"<<endl;\n" ++
      "\tfor(auto it = mf_struct->begin(); it != mf_struct->end(); it++)\x7b\n" ++
      "\t\tcout<<\"|\"" ++
      fields.flatMap (fun field => ("<<(*it)->" ++ field ++ "<<\"|\"" : Text)) ++
      "<<endl;\n" ++ "\t\x7d\n" ++ "\x7d\n"

end MfQuery
