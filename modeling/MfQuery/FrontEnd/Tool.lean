import MfQuery.FrontEnd.Empty
import MfQuery.Retrieval

/-!
# The tool

`main` chooses a front end by its arguments. `parse_query` computes the header
and the program in full before it writes them to their files, so that a query
that fails on the way leaves the files of an earlier one alone.
-/

namespace MfQuery

open Text

/-! ## Arguments -/

/-- What `main` does for its arguments. -/
inductive Invocation
  | userInput (emf : Bool)
  | fileInput (file : Text) (emf : Bool)
  | invalid
  deriving DecidableEq, Repr

/-- The branches of `main`, on the arguments behind the name of the program. -/
def Invocation.ofArguments : List Text → Invocation
  | [] => .userInput false
  | [argument] => if argument = "-emf".toList then .userInput true else .fileInput argument false
  | first :: second :: _ =>
      if first = "-emf".toList then .fileInput second true
      else if second = "-emf".toList then .fileInput first true
      else .invalid

/-! ## Files -/

/-- Contents of the files, by path. -/
abbrev Files := Text → Option Text

/-- `write_to_file`. -/
def writeToFile (path data : Text) (files : Files) : Files :=
  fun other => if other = path then some data else files other

/-- `OUTPUT_FILE_HEADER_LOCATION`. -/
def outputFileHeaderLocation : Text := "./result.h"

/-- `OUTPUT_FILE`. -/
def outputFile : Text := "./result.cpp"

/-- `OUTPUT_FILE_HEADER_START`. -/
def outputFileHeaderStart : Text :=
  "#ifndef _RESULT_H_\n" ++ "#define _RESULT_H_ \n" ++ "#include <string>\n" ++
    "#include <vector>\n" ++ "#include <cstdint>\n" ++ "#include <map>\n" ++
    "#include <cppconn/resultset.h>\n" ++ "#include \"lib/str.h\"\n" ++
    "#include \"lib/objects/average.h\"\n" ++ "#include \"lib/objects/sql.h\"\n"

/-- `OUTPUT_FILE_HEADER_END`. -/
def outputFileHeaderEnd : Text := "#endif"

/-! ## The written texts -/

/-- What `parse_query` computes. -/
structure ResultTexts where
  structures : Text
  functions : Text
  retrieval : Text
  body : Text
  deriving DecidableEq, Repr

namespace ResultTexts

/-- The text of the header. -/
def header (texts : ResultTexts) : Text :=
  outputFileHeaderStart ++ texts.structures ++ outputFileHeaderEnd

/-- The text of the program. -/
def program (texts : ResultTexts) : Text :=
  "#include \"result.h\"\n" ++ "using namespace std;\n\n" ++ texts.functions ++
    "int main()\x7b\n" ++ "\tsql::ResultSet* res;\n" ++
    "\tvector<struct mf_structure*>* mf_struct = new vector<struct mf_structure*>();\n" ++
    texts.retrieval ++ texts.body ++ "\tprint_mf_structure(mf_struct);\n" ++ "\treturn 0;\n" ++
    "\x7d\n"

/-- The two writes. -/
def write (texts : ResultTexts) (files : Files) : Files :=
  writeToFile outputFile texts.program (writeToFile outputFileHeaderLocation texts.header files)

end ResultTexts

/-- `parse_query` up to its writes, for a number of grouping variables that is not
negative. -/
def resultTexts
    (columns : List Column)
    (stale : Option Text)
    (emf : Bool)
    (query : UserQuery) : Except Failure ResultTexts := do
  let n := query.noGroupingVars.toNat
  let fVect ← deref query.fVect
  let allAggregates ← orThrow (getAllAggregates fVect)
  let selectAttribute ← deref query.selectAttribute
  let selectAggregates ← orThrow (getSelectAggregates selectAttribute)
  let selectConditions ← conditionsPointer query.selectCondVect
  let structures ← orThrow (createStructures selectAttribute columns)
  let selectColumns := getSelectColumns selectAttribute
  let groups := createGroupingVarStructs n columns selectColumns allAggregates
  let groupingAttr ← deref query.groupingAttr
  let helpers ← orThrow (helpersOver stale n groupingAttr columns)
  let printer ← orThrow (createOutputPrinter selectAttribute)
  let retrieval := dataRetrieval columns query.whereText
  let generator : ScanGenerator := ⟨n, columns, selectColumns, selectAggregates, allAggregates,
    [], query.having, groupingAttr, emf⟩
  let body ← generator.generateOver selectConditions
  return ⟨structures ++ groups, helpers ++ printer, retrieval, body⟩

/-! ## Running the tool -/

/-- How a run of the tool ends: the files, and what is printed behind the prompts
or the failure. -/
structure Outcome where
  files : Files
  status : Except Failure (List Text)

/-- `parse_query`. -/
def Outcome.ofQuery
    (columns : List Column)
    (stale : Option Text)
    (emf : Bool)
    (files : Files)
    (query : Except Failure UserQuery) : Outcome :=
  match query >>= resultTexts columns stale emf with
  | .error failure => ⟨files, .error failure⟩
  | .ok texts => ⟨texts.write files, .ok []⟩

/-- `main`: the front end of the invocation reads the query from the input or from
the file, which has to exist. -/
def runTool
    (columns : List Column)
    (stale : Option Text)
    (arguments : List Text)
    (input : Text)
    (files : Files) : Outcome :=
  match Invocation.ofArguments arguments with
  | .userInput emf => .ofQuery columns stale emf files (parseUserInput input)
  | .fileInput file emf =>
      .ofQuery columns stale emf files (orThrow (files file) >>= parseFileInput)
  | .invalid => ⟨files, .ok ["Invalid input".toList]⟩

/-! ## What the texts consist of -/

theorem map_bind_eq
    {Value Next Result : Type}
    (call : Except Failure Value)
    (next : Value → Except Failure Next)
    (function : Next → Result) :
    (call >>= next).map function = call >>= fun value => (next value).map function := by
  cases call with
  | error failure => rfl
  | ok value => rfl

/-- The texts are those the pipeline generates, with the retrieval of the table
between the functions and the body of `main`. -/
theorem parseQuery_eq_resultTexts
    (columns : List Column)
    (stale : Option Text)
    (emf : Bool)
    (query : UserQuery) :
    parseQuery columns stale emf query =
      (resultTexts columns stale emf query).map fun texts =>
        (texts.structures, texts.functions ++ texts.body) := by
  unfold parseQuery resultTexts
  simp only [map_bind_eq]
  rfl

/-! ## Runs of the tool -/

/-- One call of the tool. -/
structure Call where
  columns : List Column
  stale : Option Text
  arguments : List Text
  input : Text

namespace Call

/-- The files behind the call. -/
def run (call : Call) (files : Files) : Files :=
  (runTool call.columns call.stale call.arguments call.input files).files

/-- The texts of the query, where the call gets as far as to write them. -/
def texts (call : Call) (files : Files) : Option ResultTexts :=
  match Invocation.ofArguments call.arguments with
  | .userInput emf =>
      (parseUserInput call.input >>= resultTexts call.columns call.stale emf).toOption
  | .fileInput file emf =>
      (orThrow (files file) >>= parseFileInput >>=
        resultTexts call.columns call.stale emf).toOption
  | .invalid => none

/-- The query is not read from a file the tool writes. -/
def ReadsOther (call : Call) : Prop :=
  ∀ file emf, Invocation.ofArguments call.arguments = .fileInput file emf →
    file ≠ outputFileHeaderLocation ∧ file ≠ outputFile

end Call

theorem Outcome.ofQuery_ok
    {columns : List Column}
    {stale : Option Text}
    {emf : Bool}
    {query : UserQuery}
    {texts : ResultTexts}
    (written : resultTexts columns stale emf query = .ok texts)
    (files : Files) :
    Outcome.ofQuery columns stale emf files (.ok query) = ⟨texts.write files, .ok []⟩ := by
  have bound : (.ok query >>= resultTexts columns stale emf) = .ok texts :=
    bind_eq_ok_iff.mpr ⟨query, rfl, written⟩
  rw [Outcome.ofQuery, bound]

/-- A query is written as a whole or not at all. -/
theorem Outcome.files_ofQuery
    (columns : List Column)
    (stale : Option Text)
    (emf : Bool)
    (files : Files)
    (query : Except Failure UserQuery) :
    (Outcome.ofQuery columns stale emf files query).files =
      ((query >>= resultTexts columns stale emf).toOption.map fun texts =>
        texts.write files).getD files := by
  unfold Outcome.ofQuery
  cases query >>= resultTexts columns stale emf with
  | error failure => rfl
  | ok texts => rfl

theorem Call.run_eq
    (call : Call)
    (files : Files) :
    call.run files = ((call.texts files).map fun texts => texts.write files).getD files := by
  unfold Call.run Call.texts runTool
  cases Invocation.ofArguments call.arguments with
  | userInput emf => exact Outcome.files_ofQuery ..
  | fileInput file emf => exact Outcome.files_ofQuery ..
  | invalid => rfl

theorem ResultTexts.write_of_ne
    (texts : ResultTexts)
    (files : Files)
    {path : Text}
    (notHeader : path ≠ outputFileHeaderLocation)
    (notProgram : path ≠ outputFile) :
    texts.write files path = files path := by
  rw [ResultTexts.write, writeToFile, if_neg notProgram, writeToFile, if_neg notHeader]

@[simp] theorem ResultTexts.write_outputFile
    (texts : ResultTexts)
    (files : Files) :
    texts.write files outputFile = some texts.program := by
  rw [ResultTexts.write, writeToFile, if_pos rfl]

@[simp] theorem ResultTexts.write_header
    (texts : ResultTexts)
    (files : Files) :
    texts.write files outputFileHeaderLocation = some texts.header := by
  have apart : outputFileHeaderLocation ≠ outputFile := by decide
  rw [ResultTexts.write, writeToFile, if_neg apart, writeToFile, if_pos rfl]

/-- A query overwrites both files of an earlier one. -/
theorem ResultTexts.write_write
    (first second : ResultTexts)
    (files : Files) :
    second.write (first.write files) = second.write files := by
  funext path
  by_cases isProgram : path = outputFile
  · simp only [isProgram, ResultTexts.write_outputFile]
  · by_cases isHeader : path = outputFileHeaderLocation
    · simp only [isHeader, ResultTexts.write_header]
    · rw [second.write_of_ne _ isHeader isProgram, second.write_of_ne _ isHeader isProgram,
        first.write_of_ne _ isHeader isProgram]

/-- What an earlier query has written does not change what a call writes. -/
theorem Call.texts_write
    {call : Call}
    (readsOther : call.ReadsOther)
    (earlier : ResultTexts)
    (files : Files) :
    call.texts (earlier.write files) = call.texts files := by
  unfold Call.texts
  cases invoked : Invocation.ofArguments call.arguments with
  | userInput emf => rfl
  | fileInput file emf =>
      obtain ⟨notHeader, notProgram⟩ := readsOther file emf invoked
      simp only [earlier.write_of_ne files notHeader notProgram]
  | invalid => rfl

/-- A query at the prompt. -/
def promptCall : Call :=
  ⟨(saleQuery false).columns, none, [], "cust\n1=1\n0\ncust\ncount_quant\n\n"⟩

/-- A query from a file that is not there. -/
def missingCall : Call := ⟨(saleQuery true).columns, none, ["-emf", "missing"], []⟩

end MfQuery
