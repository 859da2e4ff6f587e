import MfQuery.FrontEnd.File
import MfQuery.Having.LineEnds
import MfQuery.Meaning.Session

/-!
# From the query file to the printed answer

A query file has the same parts as a session at the prompt. Its HAVING section
is read with the line ends behind it, which change the emitted text and not
what it means: the program prints the answer of the query.
-/

namespace MfQuery

open Text
open Lines (unlines)

/-! ## Programs that differ in their HAVING text -/

theorem ScanGenerator.scanStmts_having
    (generator : ScanGenerator)
    (having : Text)
    (buckets : List (List Aggregate))
    (i : Nat) :
    ({ generator with having := having } : ScanGenerator).scanStmts i buckets =
      generator.scanStmts i buckets := by
  induction buckets generalizing i with
  | nil => rfl
  | cons bucket buckets inductionHypothesis =>
      rw [ScanGenerator.scanStmts, ScanGenerator.scanStmts, inductionHypothesis]
      rfl

/-- Another HAVING text changes the condition of the last pass only. -/
theorem ScanGenerator.program_having
    {generator : ScanGenerator}
    {program : Program}
    (isProgram : generator.program = some program)
    {having text : Text}
    (parsed : ({ generator with having := having } : ScanGenerator).parseHaving = some text) :
    ({ generator with having := having } : ScanGenerator).program =
      some { program with fill := { program.fill with having := text } } := by
  simp only [ScanGenerator.program, Option.bind_eq_bind, Option.bind_eq_some_iff, Option.pure_def,
    Option.some.injEq] at isProgram
  obtain ⟨groups, grouped, scans, scanned, condition, -, rfl⟩ := isProgram
  have sameGroups : ({ generator with having := having } : ScanGenerator).groupAggregates =
      some groups := grouped
  rw [ScanGenerator.program, sameGroups]
  simp only [Option.bind_eq_bind, Option.bind_some]
  rw [ScanGenerator.scanStmts_having, scanned, parsed]
  rfl

/-- Texts that C++ reads alike make the same last pass. -/
theorem FillPass.run_having
    (fill : FillPass)
    {text : Text}
    (alike : Cpp.read text = Cpp.read fill.having)
    (cols : List Ct) :
    ({ fill with having := text } : FillPass).run cols (cppHaving cols) =
      fill.run cols (cppHaving cols) := by
  have body : ({ fill with having := text } : FillPass).body cols (cppHaving cols) =
      fill.body cols (cppHaving cols) := by
    funext group entry
    simp only [FillPass.body, cppHaving, Cpp.condition, alike]
  funext fuel store
  rw [FillPass.run, FillPass.run, body]

/-! ## Line ends behind HAVING -/

/-- The query with line ends behind its HAVING text. -/
def Query.lineEnded (query : Query) (count : Nat) : Query :=
  { query with having := query.having ++ lineEnds count }

section LineEnded

variable {source : Source} (valid : source.Valid) {formula : HavingFormula}
  (written : source.having = some formula) (count : Nat)
include valid

theorem Source.Valid.scanGenerator_lineEnded :
    (source.query.lineEnded count).scanGenerator =
      some { source.generator with having := source.generator.having ++ lineEnds count } := by
  have parts := Query.builtFrom valid.scanGenerator_eq
  rw [Query.scanGenerator_eq_some_iff]
  refine ⟨_, _, _, parts.allAggregates_eq, parts.selectAggregates_eq, parts.selectConditions_eq, ?_⟩
  simp only [Query.lineEnded, ← parts.selectColumns_eq]
  rfl

include written

/-- The program of the query with line ends differs from the one without in a
condition that C++ reads alike. -/
theorem Source.Valid.exists_program_lineEnded :
    ∃ program text, source.generator.program = some program ∧
      Cpp.read text = Cpp.read program.fill.having ∧
      ({ source.generator with having := source.generator.having ++ lineEnds count } :
        ScanGenerator).program =
          some { program with fill := { program.fill with having := text } } := by
  have formulaValid := valid.having_valid written
  have having : source.generator.having = formula.text := by
    simp only [Source.generator, written]
    rfl
  obtain ⟨program, isProgram⟩ := valid.exists_program
  obtain ⟨text, parsed, read⟩ := formula.parseHaving_lineEnds valid.named formulaValid
    (show ({ source.generator with having := formula.text ++ lineEnds count } :
      ScanGenerator).columns = source.columns from rfl) rfl
  refine ⟨program, text, isProgram, ?_, ?_⟩
  · have plain := valid.parseHaving_eq
    rw [written] at plain
    simp only [ScanGenerator.program, plain, Option.bind_eq_bind, Option.bind_eq_some_iff,
      Option.pure_def, Option.some.injEq, exists_eq_left'] at isProgram
    obtain ⟨groups, -, scans, -, rfl⟩ := isProgram
    rw [read]
    exact (HavingFormula.read_cpp (HavingFormula.Valid.written valid.named formulaValid)).symm
  · rw [having]
    exact ScanGenerator.program_having isProgram parsed

/-- Line ends behind HAVING do not change what is printed. -/
theorem Source.Valid.output_lineEnded (table : List Row) :
    (source.query.lineEnded count).output table = source.query.output table := by
  obtain ⟨program, text, isProgram, alike, ended⟩ := valid.exists_program_lineEnded written count
  have passes : ∀ cols, ({ program.fill with having := text } : FillPass).run cols
      (cppHaving cols) = program.fill.run cols (cppHaving cols) := program.fill.run_having alike
  unfold Query.output
  rw [valid.scanGenerator_lineEnded count, valid.scanGenerator_eq]
  simp only [Option.bind_eq_bind, Option.bind_some, isProgram, ended, passes]
  rfl

end LineEnded

/-! ## What the file holds -/

/-- The file of a query, with line ends behind it. -/
def Query.file (query : Query) (whereText : Text) (count : Nat) : QueryFile where
  s := List.intercalate comma query.selectAttribute
  whereText := whereText
  n := query.selectCondVect.length
  v := List.intercalate comma query.groupingAttr
  f := List.intercalate comma query.fVect
  conditions := query.selectCondVect
  tail := '\n' :: (query.having ++ lineEnds count)

/-- A query that can be written to a file: no part holds a section header. -/
structure Query.Fileable (query : Query) (whereText : Text) : Prop where
  selectAttribute : ReadBack query.selectAttribute
  groupingAttr : ReadBack query.groupingAttr
  fVect : ReadBack query.fVect
  lines : Fields '\n' query.selectCondVect
  few : query.selectCondVect.length < 2 ^ 31
  headlessWhere : Headless whereText
  headlessLines : ∀ line ∈ query.selectCondVect, Headless line

/-- Lists of names hold no header. -/
theorem ReadBack.headless
    {names : List Text}
    (readBack : ReadBack names) :
    Headless (List.intercalate comma names) := by
  intro i occurs
  have bracket : ∀ i, '(' ∈ parts i := by decide
  exact notMem_intercalate readBack.listNames (by decide) (by decide) (occurs.subset (bracket i))

namespace Query.Fileable

variable {query : Query} {whereText : Text} (fileable : query.Fileable whereText)
include fileable

theorem wellFormed_file (count : Nat) : (query.file whereText count).WellFormed where
  conditionLines := fileable.lines
  count := rfl
  small := fileable.few
  headless := by
    simp only [List.forall_mem_cons, List.not_mem_nil, false_imp_iff, implies_true, and_true]
    exact ⟨fileable.selectAttribute.headless, fileable.headlessWhere,
      fileable.groupingAttr.headless, fileable.fVect.headless⟩
  headlessConditions := fileable.headlessLines

/-- The file is read back into the query with one more line end; without
such-that lines the pointer to them is null. -/
theorem parseFileInput_file (count : Nat) :
    parseFileInput (query.file whereText count).content =
      .ok { (query.lineEnded (count + 1)).arguments whereText with
        selectCondVect := if query.selectCondVect = [] then none else some query.selectCondVect } := by
  have wellFormed := fileable.wellFormed_file count
  have sections := wellFormed.fileSections_eq
  have tail : ((query.file whereText count).tail ++ ['\n']).drop 1 =
      query.having ++ lineEnds (count + 1) := by
    have ends : lineEnds (count + 1) = lineEnds count ++ ['\n'] := List.replicate_succ' ..
    rw [ends]
    simp [Query.file]
  rw [tail] at sections
  have conditions : explode "\n" (query.file whereText count).svc =
      .ok (if query.selectCondVect = [] then none else some query.selectCondVect) := by
    split_ifs with empty
    · have none : ¬0 < (query.file whereText count).n := by simp [Query.file, empty]
      rw [QueryFile.svc, if_neg none]
      rfl
    · exact wellFormed.explode_svc (List.length_pos_iff.mpr empty)
  rw [parseFileInput, sections]
  simp only [bind_eq_ok_iff, Except.ok.injEq, exists_eq_left']
  exact ⟨_, fileable.selectAttribute.explode_eq, _, fileable.groupingAttr.explode_eq, _,
    fileable.fVect.explode_eq, _, conditions, rfl⟩

end Query.Fileable

/-! ## From the file to the answer -/

/-- A query that can be written to a file: its lists are read back, its lines
are split apart again, and no part holds a section header. -/
structure Source.Fileable (source : Source) (whereText : Text) : Prop where
  lists : source.ListsReadBack
  lines : Fields '\n' source.query.selectCondVect
  headlessWhere : Headless whereText
  headlessLines : ∀ line ∈ source.lines, Headless line.text

theorem Source.Valid.fileable_query
    {source : Source}
    (valid : source.Valid)
    {whereText : Text}
    (fileable : source.Fileable whereText) :
    source.query.Fileable whereText where
  selectAttribute := valid.readBack_selectAttribute fileable.lists
  groupingAttr := valid.readBack_groupingAttr fileable.lists
  fVect := valid.readBack_fVect fileable.lists
  lines := fileable.lines
  few := by
    rw [Source.query, List.length_map]
    exact valid.few
  headlessWhere := fileable.headlessWhere
  headlessLines := by
    intro text member
    obtain ⟨line, inLines, rfl⟩ := List.mem_map.mp member
    exact fileable.headlessLines line inLines

/-- The pointer to no lines and the null pointer are compiled alike. -/
theorem resultTexts_noLines
    (columns : List Column)
    (stale : Option Text)
    (emf : Bool)
    (query : UserQuery)
    (lines : List Text) :
    resultTexts columns stale emf
        { query with selectCondVect := if lines = [] then none else some lines } =
      resultTexts columns stale emf { query with selectCondVect := some lines } := by
  cases lines with
  | nil => rfl
  | cons line lines => rw [if_neg (List.cons_ne_nil _ _)]

theorem fileable_saleSource : (saleSource saleLine false).Fileable "1=1" where
  lists := listsReadBack_saleSource saleLine false
  lines :=
    { nonempty := by decide
      free := by decide
      visible := by
        rintro last ⟨⟩
        exact ⟨'1', by decide, by decide⟩ }
  headlessWhere := by
    unfold Headless
    decide
  headlessLines := by
    intro line member
    rw [List.mem_singleton.mp member]
    unfold Headless
    decide

/-- A file with the query of the sales. -/
def saleFiles : Files :=
  writeToFile "query" ("SELECT ATTRIBUTE(S):\ncust, 1_sum_quant\nWHERE(W):\n1=1\n" ++
    "NUMBER OF GROUPING VARIABLES(n):\n1\nGROUPING ATTRIBUTES(V):\ncust\n" ++
    "F-VECT([F]):\n1_count_quant, 1_sum_quant\nSELECT CONDITION-VECT([σ]):\n1.quant>5\n" ++
    "HAVING_CONDITION(G):\n1_count_quant > 1\n") fun _ => none

end MfQuery
