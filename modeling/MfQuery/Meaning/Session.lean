import MfQuery.FrontEnd.Joined
import MfQuery.FrontEnd.Prompt
import MfQuery.FrontEnd.Tool
import MfQuery.Meaning.Main

/-!
# From the prompt to the printed answer

A user types a query at the prompt. The front end reads it into its lists, the
compiler writes the two result files, and the program in them prints the answer
of the query for every result set the server delivers.
-/

namespace MfQuery

open Text
open Lines (unlines)

/-! ## Lists of names -/

/-- Names of letters, digits and underscores. -/
def ListName (name : Text) : Prop :=
  name ≠ [] ∧ ∀ character ∈ name, identRest character = true

section Names

variable {names : List Text} (listNames : ∀ name ∈ names, ListName name)
include listNames

theorem joinable_of_listNames :
    Joinable comma names where
  nonempty := fun name member => (listNames name member).1
  free := by
    rintro name member ⟨before, after, rfl⟩
    exact absurd ((listNames _ member).2 ',' (by simp [comma])) (by decide)
  visible := by
    intro last member
    obtain ⟨nonempty, word⟩ := listNames last (List.mem_of_getLast? member)
    obtain ⟨first, rest, rfl⟩ := List.exists_cons_of_ne_nil nonempty
    refine ⟨first, List.mem_cons_self .., ?_⟩
    have ident := word first (List.mem_cons_self ..)
    rw [Bool.eq_false_iff]
    intro blank
    simp only [isBlank, Bool.or_eq_true, beq_iff_eq] at blank
    rcases blank with (rfl | rfl) | rfl <;> exact absurd ident (by decide)

/-- A joined list of names is split into the names. -/
theorem explode_listNames
    (present : names ≠ [])
    (long : ∀ last ∈ names.getLast?, 2 ≤ last.length) :
    explode comma (List.intercalate comma names) = .ok (some names) := by
  have notShort : (names.getLast present).length ≠ 1 := by
    have enough := long _ (List.getLast?_eq_some_getLast present)
    omega
  obtain ⟨first, rest, rfl⟩ := List.exists_cons_of_ne_nil present
  have nonempty : List.intercalate comma (first :: rest) ≠ [] := by
    have firstNonempty := (listNames first (List.mem_cons_self ..)).1
    cases rest with
    | nil => rwa [List.intercalate_singleton]
    | cons next rest =>
        rw [List.intercalate_cons_cons]
        simp [comma]
  rw [explode, if_neg (by simpa [comma] using nonempty),
    explodeLoop_fields first rest (joinable_of_listNames listNames) _ 0 (Nat.zero_le _) (by omega),
    if_neg notShort]
  rfl

/-- A joined list holds characters of names and separators. -/
theorem notMem_intercalate
    {character : Char}
    (foreign : identRest character = false)
    (apart : character ∉ comma) :
    character ∉ List.intercalate comma names := by
  intro member
  induction names with
  | nil => simp at member
  | cons first rest inductionHypothesis =>
      have here : character ∉ first := by
        intro inside
        rw [(listNames first (List.mem_cons_self ..)).2 character inside] at foreign
        cases foreign
      have later := inductionHypothesis fun name inside =>
        listNames name (List.mem_cons_of_mem _ inside)
      cases rest with
      | nil =>
          rw [List.intercalate_singleton] at member
          exact here member
      | cons next rest =>
          rw [List.intercalate_cons_cons, List.append_assoc, List.mem_append, List.mem_append]
            at member
          rcases member with inside | inComma | behind
          · exact here inside
          · exact apart inComma
          · exact later behind

end Names

/-! ## What is typed -/

/-- The answers that give a query, one line each. -/
def Query.typed (query : Query) (whereText : Text) : Text :=
  unlines '\n' ([List.intercalate comma query.selectAttribute, whereText,
    numeral query.selectCondVect.length, List.intercalate comma query.groupingAttr,
    List.intercalate comma query.fVect] ++ query.selectCondVect ++ [query.having])

/-- The arguments `parse_query` gets for a query. -/
def Query.arguments (query : Query) (whereText : Text) : UserQuery where
  selectAttribute := some query.selectAttribute
  whereText := whereText
  noGroupingVars := query.selectCondVect.length
  groupingAttr := some query.groupingAttr
  fVect := some query.fVect
  selectCondVect := some query.selectCondVect
  having := query.having

/-- A list the prompt reads back: of names, not empty, and the last one with two
characters or more. -/
structure ReadBack (names : List Text) : Prop where
  present : names ≠ []
  listNames : ∀ name ∈ names, ListName name
  long : ∀ last ∈ names.getLast?, 2 ≤ last.length

/-- A list that is read back stands on one line. -/
theorem ReadBack.newline_notMem
    {names : List Text}
    (readBack : ReadBack names) :
    '\n' ∉ List.intercalate comma names :=
  notMem_intercalate readBack.listNames (by decide) (by decide)

theorem ReadBack.explode_eq
    {names : List Text}
    (readBack : ReadBack names) :
    explode comma (List.intercalate comma names) = .ok (some names) :=
  explode_listNames readBack.listNames readBack.present readBack.long

/-- A query that can be typed. -/
structure Query.Typable (query : Query) (whereText : Text) : Prop where
  selectAttribute : ReadBack query.selectAttribute
  groupingAttr : ReadBack query.groupingAttr
  fVect : ReadBack query.fVect
  lines : ∀ line ∈ query.selectCondVect, '\n' ∉ line ∧ TakenWhole line
  few : query.selectCondVect.length < 2 ^ 31
  singleWhere : '\n' ∉ whereText
  singleHaving : '\n' ∉ query.having

namespace Query.Typable

variable {query : Query} {whereText : Text} (typable : query.Typable whereText)

include typable in
/-- Every answer stands on one line. -/
theorem newline_notMem :
    ∀ line ∈ [List.intercalate comma query.selectAttribute, whereText,
      numeral query.selectCondVect.length, List.intercalate comma query.groupingAttr,
      List.intercalate comma query.fVect, query.having] ++ query.selectCondVect,
        '\n' ∉ line := by
  have number : '\n' ∉ numeral query.selectCondVect.length := fun member =>
    absurd (isDigit_of_mem_numeral member) (by decide)
  simp only [List.cons_append, List.nil_append, List.forall_mem_cons]
  exact ⟨typable.selectAttribute.newline_notMem, typable.singleWhere, number,
    typable.groupingAttr.newline_notMem, typable.fVect.newline_notMem, typable.singleHaving,
    fun line member => (typable.lines line member).1⟩

theorem ends_newline : (['\n'] : Text) = [] ∨ ∃ more, (['\n'] : Text) = '\n' :: more :=
  .inr ⟨[], rfl⟩

/-- The session in which the query is typed. -/
def session : PromptSession where
  s := List.intercalate comma query.selectAttribute
  whereText := whereText
  number := numeral query.selectCondVect.length
  v := List.intercalate comma query.groupingAttr
  f := List.intercalate comma query.fVect
  lines := query.selectCondVect
  having := query.having
  rest := ['\n']
  isNumber := stoi_numeral typable.few
  singleLines := typable.newline_notMem
  ends := ends_newline

theorem content_session : typable.session.content = query.typed whereText := by
  rw [PromptSession.content, PromptSession.later, Query.typed, session]
  simp

include typable in
/-- The prompt reads the query back. -/
theorem parseUserInput_typed :
    parseUserInput (query.typed whereText) = .ok (query.arguments whereText) := by
  have whole : ∀ line ∈ typable.session.lines, TakenWhole line :=
    fun line member => (typable.lines line member).2
  have singleLines : ∀ line ∈ typable.session.lines, '\n' ∉ line :=
    fun line member => (typable.lines line member).1
  have lines := (readConditions_eq_iff typable.session.lines singleLines
    (typable.session.having ++ typable.session.rest)).mpr whole
  have stream := readConditions_stream typable.session.lines singleLines whole
    (typable.session.having ++ typable.session.rest)
  have read := typable.session.readAnswers_content
  rw [PromptSession.later, lines, stream, typable.session.getline_having,
    typable.content_session] at read
  rw [parseUserInput, read]
  simp only [bind_eq_ok_iff, Except.ok.injEq, exists_eq_left']
  exact ⟨_, typable.selectAttribute.explode_eq, _, typable.groupingAttr.explode_eq, _,
    typable.fVect.explode_eq, rfl⟩

end Query.Typable

/-! ## What is written -/

/-- Without grouping variables the pointer to the conditions is not used. -/
theorem ScanGenerator.generateOver_none
    {generator : ScanGenerator}
    (single : generator.noGroupingVars = 0) :
    generator.generateOver none = generator.generateOver (some []) := by
  rw [generateOver, generateOver]
  cases grouped : generator.groupAggregates with
  | none => rfl
  | some groups =>
      rw [groupAggregates_eq (groupsInRange_of_groupAggregates grouped), single] at grouped
      cases grouped
      rfl

section Written

variable {query : Query} {generator : ScanGenerator}
  (built : query.scanGenerator = some generator)
  (lineCount : query.noGroupingVars = query.selectCondVect.length)
include built lineCount

/-- Over the lines of the query the generator writes what it writes over its
conditions. -/
theorem Query.generateOver_lines :
    (conditionsPointer (some query.selectCondVect) >>= fun conditions =>
      ({ generator with selectConditions := [] } : ScanGenerator).generateOver conditions) =
        orThrow generator.generate := by
  have parts := Query.builtFrom built
  have read := parts.selectConditions_eq
  cases shape : query.selectCondVect with
  | nil =>
      rw [shape] at read
      have noConditions : generator.selectConditions = [] := (Option.some.inj read).symm
      have single : generator.noGroupingVars = 0 := by
        rw [parts.noGroupingVars_eq, lineCount, shape]
        rfl
      change ScanGenerator.generateOver _ none = _
      rw [ScanGenerator.generateOver_none (by exact single), ScanGenerator.generateOver_some,
        ← noConditions]
  | cons line lines =>
      rw [shape] at read
      rw [conditionsPointer, read]
      change ScanGenerator.generateOver _ (some generator.selectConditions) = _
      rw [ScanGenerator.generateOver_some]

/-- The texts of a query whose helpers and whose program can be written are
those it is compiled to, with the retrieval of the rows. -/
theorem Query.exists_resultTexts
    {program : Program}
    (isProgram : generator.program = some program)
    {helpers : Text}
    (helped : getHelpers query.noGroupingVars query.groupingAttr query.columns = some helpers)
    (stale : Option Text)
    (whereText : Text) :
    ∃ texts, resultTexts query.columns stale query.emf (query.arguments whereText) = .ok texts ∧
      query.compile = some (texts.structures, texts.functions ++ texts.body) ∧
      texts.body = program.render ∧ texts.retrieval = dataRetrieval query.columns whereText := by
  have parts := Query.builtFrom built
  obtain ⟨structures, declared⟩ := exists_createStructures parts.selectAggregates_eq query.columns
  obtain ⟨printer, printed⟩ := exists_createOutputPrinter parts.selectAggregates_eq
  have generated := Query.generateOver_lines built lineCount
  rw [ScanGenerator.generate_eq_render, isProgram] at generated
  obtain ⟨conditions, isPointer, body⟩ := bind_eq_ok_iff.mp generated
  have number : (query.arguments whereText).noGroupingVars.toNat = query.noGroupingVars := by
    rw [lineCount]
    exact Int.toNat_natCast _
  have known : helpersOver stale query.noGroupingVars query.groupingAttr query.columns =
      some helpers := by
    obtain ⟨cols, types, -⟩ := Option.bind_eq_some_iff.mp helped
    rw [helpersOver, types, Option.isSome_some, if_pos rfl, helped]
  refine ⟨⟨structures ++ createGroupingVarStructs query.noGroupingVars query.columns
    (getSelectColumns query.selectAttribute) generator.allAggregates, helpers ++ printer,
    dataRetrieval query.columns whereText, program.render⟩, ?_, ?_, rfl, rfl⟩
  · rw [parts.noGroupingVars_eq, parts.columns_eq, parts.selectColumns_eq, parts.having_eq,
      parts.groupingAttr_eq, parts.emf_eq] at body
    simp only [resultTexts, number, bind_eq_ok_iff]
    exact ⟨_, rfl, _, orThrow_eq_ok_iff.mpr parts.allAggregates_eq, _, rfl, _,
      orThrow_eq_ok_iff.mpr parts.selectAggregates_eq, conditions, isPointer, structures,
      orThrow_eq_ok_iff.mpr declared, _, rfl, helpers, orThrow_eq_ok_iff.mpr known, printer,
      orThrow_eq_ok_iff.mpr printed, _, body, rfl⟩
  · simp only [Query.compile, built, declared, helped, printed, Option.bind_eq_bind,
      Option.bind_some, ScanGenerator.generate_eq_render, isProgram, Option.map_some,
      parts.selectColumns_eq]
    rfl

end Written

theorem Source.Valid.exists_helpers
    {source : Source}
    (valid : source.Valid) :
    ∃ helpers, getHelpers source.lines.length source.groupingAttr source.columns =
      some helpers := by
  obtain ⟨cols, types, columns⟩ := valid.exists_getCt
  have comparable : (cols.all fun col => col.type.comparable) = true := by
    rw [List.all_eq_true]
    intro col member
    obtain ⟨column, -, -, type, isInt | isString⟩ := columns col member
    · rw [← type, isInt]
      rfl
    · rw [← type, isString]
      rfl
  rw [getHelpers, types]
  simp only [Option.bind_eq_bind, Option.bind_some]
  rw [if_pos comparable]
  exact ⟨_, rfl⟩

theorem Source.lineCount (source : Source) :
    source.query.noGroupingVars = source.query.selectCondVect.length :=
  (List.length_map ..).symm

/-- The statement sent to the server is the one the query asks for. -/
theorem fetches_dataRetrieval
    (columns : List Column)
    {whereText : Text}
    (plain : ∀ character ∈ whereText, character ≠ '"' ∧ character ≠ '\\' ∧ character ≠ '\n')
    (noTrigraph : ¬Cpp.HasTrigraph whereText) :
    Fetches (dataRetrieval columns whereText) (selectStatement whereText) := by
  obtain ⟨after, code⟩ := translated_dataRetrieval columns
    fun newline => (plain '\n' newline).2.2 rfl
  rw [Cpp.replaceTrigraphs_eq noTrigraph] at code
  refine ⟨_, ';' :: '\n' :: after, by rw [code, behind_fetchStart]; rfl,
    Cpp.readLiteral_plain ?_ _⟩
  intro character member
  have front : selectStart.all
      (fun other => decide (other ≠ '"' ∧ other ≠ '\\' ∧ other ≠ '\n')) = true := by decide
  rw [selectStatement_eq] at member
  rcases List.mem_append.mp member with inFront | inWhere
  · exact of_decide_eq_true (List.all_eq_true.mp front character inFront)
  · exact plain character inWhere

/-! ## From the typed query to the answer -/

/-- The lists of the query are read back: it has grouping attributes and
aggregates, and its select list and its grouping attributes end in names of two
characters or more. -/
structure Source.ListsReadBack (source : Source) : Prop where
  groupingAttr : source.groupingAttr ≠ []
  fVect : source.fVect ≠ []
  longEntry : ∀ entry ∈ source.select.getLast?, 2 ≤ (entry.text .lower).length
  longKey : ∀ attr ∈ source.groupingAttr.getLast?, 2 ≤ attr.length

/-- A query that can be typed: its lists are read back, its lines fit in the
buffer, and no answer takes more than a line. -/
structure Source.Typable (source : Source) (whereText : Text) : Prop where
  lists : source.ListsReadBack
  lines : ∀ line ∈ source.lines, '\n' ∉ line.text ∧ TakenWhole line.text
  singleWhere : '\n' ∉ whereText
  singleHaving : '\n' ∉ source.query.having

theorem AggregateTerm.two_le_length_text (term : AggregateTerm) :
    2 ≤ (term.text .lower).length := by
  have func := List.length_pos_iff.mpr (term.func.text_ne_nil .lower)
  rw [AggregateTerm.text, List.length_append, List.length_append, List.length_cons]
  omega

section Typing

variable {source : Source} (valid : source.Valid)
include valid

theorem Source.Valid.listName_column
    {name : Text}
    (inTable : ∃ column ∈ source.columns, column.name = name) :
    ListName name := by
  have identifier := valid.isIdent_name inTable
  refine ⟨?_, fun character member => identRest_of_mem identifier member⟩
  rintro rfl
  exact absurd identifier (by decide)

theorem Source.Valid.listName_term
    {term : AggregateTerm}
    (termValid : term.Valid source.columns source.lines.length) :
    ListName (term.text .lower) := by
  have long := term.two_le_length_text
  refine ⟨List.length_pos_iff.mp (by omega), fun character member => ?_⟩
  exact AggregateTerm.identRest_of_mem_text (valid.isIdent_name termValid.column_mem) .lower member

section Lists

variable (lists : source.ListsReadBack)
include lists

theorem Source.Valid.readBack_selectAttribute :
    ReadBack source.query.selectAttribute where
  present := by
    obtain ⟨attr, member⟩ := List.exists_mem_of_ne_nil _ lists.groupingAttr
    exact List.ne_nil_of_mem (List.mem_map_of_mem (valid.grouped attr member))
  listNames := by
    intro name member
    obtain ⟨entry, inSelect, rfl⟩ := List.mem_map.mp member
    have entryValid := valid.select entry inSelect
    cases entry with
    | column name => exact valid.listName_column entryValid
    | aggregate term => exact valid.listName_term entryValid
  long := by
    intro last isLast
    rw [Source.query, List.getLast?_map, Option.mem_map] at isLast
    obtain ⟨entry, isEntry, rfl⟩ := isLast
    exact lists.longEntry entry isEntry

theorem Source.Valid.readBack_groupingAttr :
    ReadBack source.query.groupingAttr where
  present := lists.groupingAttr
  listNames := by
    intro name member
    obtain ⟨column, found, named, -⟩ := valid.keys name member
    exact valid.listName_column ⟨column, List.mem_of_find?_eq_some found, named⟩
  long := lists.longKey

theorem Source.Valid.readBack_fVect :
    ReadBack source.query.fVect where
  present := fun empty => lists.fVect (List.map_eq_nil_iff.mp empty)
  listNames := by
    intro name member
    obtain ⟨term, inF, rfl⟩ := List.mem_map.mp member
    exact valid.listName_term (valid.fVect term inF)
  long := by
    intro last isLast
    rw [Source.query, List.getLast?_map, Option.mem_map] at isLast
    obtain ⟨term, -, rfl⟩ := isLast
    exact term.two_le_length_text

end Lists

/-- The query of a typable source can be typed. -/
theorem Source.Valid.typable_query
    {whereText : Text}
    (typable : source.Typable whereText) :
    source.query.Typable whereText where
  selectAttribute := valid.readBack_selectAttribute typable.lists
  groupingAttr := valid.readBack_groupingAttr typable.lists
  fVect := valid.readBack_fVect typable.lists
  lines := by
    intro text member
    obtain ⟨line, inLines, rfl⟩ := List.mem_map.mp member
    exact typable.lines line inLines
  few := by
    rw [Source.query, List.length_map]
    exact valid.few
  singleWhere := typable.singleWhere
  singleHaving := typable.singleHaving

end Typing

/-- The WHERE text can stand in a string literal. -/
structure QuotedWhere (whereText : Text) : Prop where
  plain : ∀ character ∈ whereText, character ≠ '"' ∧ character ≠ '\\' ∧ character ≠ '\n'
  noTrigraph : ¬Cpp.HasTrigraph whereText

/-- The written texts answer the source: they are what the query is compiled to,
their `main` is its program behind the retrieval of the rows of the WHERE text,
and on the rows the server delivers it prints the header and the answer of the
source. -/
structure Source.AnsweredBy
    (source : Source)
    (whereText : Text)
    (query : Query)
    (texts : ResultTexts) : Prop where
  compiled : query.compile = some (texts.structures, texts.functions ++ texts.body)
  fetches : Fetches texts.retrieval (selectStatement whereText)
  body : query.scanGenerator.bind (fun generator => generator.program.map Program.render) =
    some texts.body
  prints : ∀ (connector : Row → ResultRow) (rows : List Row),
    (∀ row ∈ rows, Delivers row (connector row)) →
    (∀ row ∈ rows, ∀ column ∈ source.columns, ∀ value, row column.name = .int value →
      -2 ^ 31 ≤ value ∧ value < 2 ^ 31) →
    source.Fits rows →
    query.mainOutput (rows.map connector) =
      some (printedHeader source.query.selectAttribute :: source.answer rows)

/-- The arguments of the tool for either mode. -/
def modeArguments (emf : Bool) : List Text := if emf then ["-emf".toList] else []

theorem listsReadBack_saleSource
    (line : Line)
    (emf : Bool) :
    (saleSource line emf).ListsReadBack where
  groupingAttr := by simp [saleSource]
  fVect := by simp [saleSource]
  longEntry := by
    rintro entry ⟨⟩
    decide
  longKey := by
    rintro attr ⟨⟩
    decide

theorem typable_saleSource : (saleSource saleLine false).Typable "1=1" where
  lists := listsReadBack_saleSource saleLine false
  lines := by
    intro line member
    rw [List.mem_singleton.mp member]
    exact ⟨by decide, by decide, by decide⟩
  singleWhere := by decide
  singleHaving := by decide

theorem quotedWhere_everything : QuotedWhere "1=1" where
  plain := by
    have each : ("1=1" : Text).all
        (fun character => decide (character ≠ '"' ∧ character ≠ '\\' ∧ character ≠ '\n')) = true := by
      decide
    exact fun character member => of_decide_eq_true (List.all_eq_true.mp each character member)
  noTrigraph := by
    rintro ⟨third, -, inside⟩
    exact absurd (inside.subset (List.mem_cons_self ..)) (by decide)

theorem answer_saleSource :
    printedHeader (saleSource saleLine false).query.selectAttribute ::
      (saleSource saleLine false).answer saleTable =
        ["|cust|1_sum_quant|".toList, "|A|27|".toList] := by
  decide

end MfQuery
