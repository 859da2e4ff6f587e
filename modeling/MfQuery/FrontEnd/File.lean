import MfQuery.FrontEnd.User
import MfQuery.Str.Replace

/-!
# Query files

A well-formed query file has every header on its own line and the text of the
section below it. The first occurrence of a header is then its own line, and
the offsets of `parse_file_input` cut exactly the texts out.
-/

namespace MfQuery

open Text Lines

/-! ## Blocks of a file -/

/-- The lines of consecutive sections: each header in front of its texts. -/
def blocks (sections : List (Fin 7 × List Text)) : List Text :=
  sections.flatMap fun entry => parts entry.1 :: entry.2

/-- Where the next header stands behind consecutive sections. -/
def offset (sections : List (Fin 7 × List Text)) : Nat :=
  (unlines '\n' (blocks sections)).length

/-- No header occurs in the text. -/
def Headless (text : Text) : Prop := ∀ i, ¬parts i <:+: text

instance (text : Text) : Decidable (Headless text) :=
  inferInstanceAs (Decidable (∀ i, ¬parts i <:+: text))

theorem parts_infix_parts (i j : Fin 7) : parts i <:+: parts j → i = j := by
  revert i j
  decide +kernel

theorem parts_ne_nil (i : Fin 7) : parts i ≠ [] := by
  revert i
  decide

theorem newline_notMem_parts (i : Fin 7) : '\n' ∉ parts i := by
  revert i
  decide

theorem headless_numeral (value : Nat) : Headless (numeral value) := by
  intro i occurs
  have colon : ∀ i, ':' ∈ parts i := by decide
  have digit := isDigit_of_mem_numeral (occurs.subset (colon i))
  exact absurd digit (by decide)

theorem offset_append
    (sections : List (Fin 7 × List Text))
    (i : Fin 7)
    (body : List Text) :
    offset (sections ++ [(i, body)]) =
      offset sections + (parts i).length + 1 + (unlines '\n' body).length := by
  simp only [offset, blocks, List.flatMap_append, List.flatMap_singleton, unlines_append,
    unlines_cons, List.length_append, List.length_cons]
  omega

/-- Behind sections of other headers, a header is found where it stands. -/
theorem findIndex_blocks
    {sections : List (Fin 7 × List Text)}
    {i : Fin 7}
    (other : ∀ entry ∈ sections, entry.1 ≠ i)
    (headless : ∀ entry ∈ sections, ∀ line ∈ entry.2, Headless line)
    (rest : Text) :
    findIndex (unlines '\n' (blocks sections) ++ (parts i ++ rest)) (parts i) =
      offset sections := by
  have absent : ∀ line ∈ blocks sections, ¬parts i <:+: line := by
    intro line member
    obtain ⟨entry, inside, inBlock⟩ := List.mem_flatMap.mp member
    rcases List.mem_cons.mp inBlock with rfl | inBody
    · exact fun occurs => other entry inside (parts_infix_parts i entry.1 occurs).symm
    · exact headless entry inside line inBody i
  rw [findIndex, find_eq_firstAt,
    firstAt_unlines (parts_ne_nil i) (newline_notMem_parts i) absent]
  rfl

/-- The offsets of two headers enclose the text of the section between
them. -/
theorem sectionText_blocks
    (sections : List (Fin 7 × List Text))
    (i : Fin 7)
    {body : List Text}
    {text : Text}
    (oneText : unlines '\n' body = text ++ ['\n'])
    (rest : Text) :
    sectionText (unlines '\n' (blocks sections) ++ (parts i ++ '\n' :: (unlines '\n' body ++ rest)))
      (parts i) (offset sections) (offset (sections ++ [(i, body)])) = .ok text := by
  have start : toSize ((offset sections : Int) + (parts i).length + 1) =
      (unlines '\n' (blocks sections) ++ (parts i ++ ['\n'])).length := by
    rw [toSize_of_nonneg (by omega)]
    simp only [offset, List.length_append, List.length_singleton]
    omega
  have count : toSize ((offset (sections ++ [(i, body)]) : Int) -
      (offset sections + (parts i).length + 2)) = text.length := by
    rw [offset_append, oneText]
    simp only [List.length_append, List.length_singleton]
    rw [toSize_of_nonneg (by omega)]
    omega
  have shape : unlines '\n' (blocks sections) ++ (parts i ++ '\n' :: (unlines '\n' body ++ rest)) =
      unlines '\n' (blocks sections) ++ (parts i ++ ['\n']) ++ (text ++ ('\n' :: rest)) := by
    rw [oneText]
    simp
  rw [sectionText, start, count, shape, substr_eq_ok (by simp), List.drop_left, List.take_left]

/-! ## Well-formed files -/

/-- A query file, section by section; `tail` is whatever follows the last
header. -/
structure QueryFile where
  s : Text
  whereText : Text
  n : Nat
  v : Text
  f : Text
  conditions : List Text
  tail : Text
  deriving DecidableEq, Repr

namespace QueryFile

/-- The sections before the last header. -/
def sections (file : QueryFile) : List (Fin 7 × List Text) :=
  [(0, [file.s]), (1, [file.whereText]), (2, [numeral file.n]), (3, [file.v]), (4, [file.f]),
    (5, file.conditions)]

/-- Content of the file. -/
def content (file : QueryFile) : Text :=
  unlines '\n' (blocks file.sections) ++ parts 6 ++ file.tail

/-- Texts without headers, and one nonempty such-that line for every grouping
variable. -/
structure WellFormed (file : QueryFile) : Prop where
  conditionLines : Fields '\n' file.conditions
  count : file.conditions.length = file.n
  small : file.n < 2 ^ 31
  headless : ∀ text ∈ [file.s, file.whereText, file.v, file.f], Headless text
  headlessConditions : ∀ line ∈ file.conditions, Headless line

/-- The such-that section. -/
def svc (file : QueryFile) : Text :=
  if 0 < file.n then joinWith '\n' file.conditions else []

/-- What the program reads of the file from one header on. -/
theorem readFromFile_content
    (file : QueryFile)
    {before after : List (Fin 7 × List Text)}
    {i : Fin 7}
    {body : List Text}
    (shape : file.sections = before ++ (i, body) :: after) :
    readFromFile file.content =
      unlines '\n' (blocks before) ++ (parts i ++ '\n' :: (unlines '\n' body ++
        (unlines '\n' (blocks after) ++ (parts 6 ++ (file.tail ++ "\n"))))) := by
  rw [readFromFile_eq, content, shape]
  simp only [blocks, List.flatMap_append, List.flatMap_cons, unlines_append, unlines_cons,
    List.append_assoc, List.cons_append]

theorem readFromFile_content_tail (file : QueryFile) :
    readFromFile file.content =
      unlines '\n' (blocks file.sections) ++ (parts 6 ++ (file.tail ++ "\n")) := by
  rw [readFromFile_eq, content]
  simp only [List.append_assoc]

section

variable {file : QueryFile} (wellFormed : file.WellFormed)
include wellFormed

theorem WellFormed.headless_sections :
    ∀ entry ∈ file.sections, ∀ line ∈ entry.2, Headless line := by
  have texts := wellFormed.headless
  simp only [List.forall_mem_cons] at texts
  obtain ⟨s, whereText, v, f, -⟩ := texts
  have number := headless_numeral file.n
  simp only [sections, List.forall_mem_cons]
  simp only [List.not_mem_nil, false_imp_iff, implies_true, and_true]
  exact ⟨s, whereText, number, v, f, wellFormed.headlessConditions⟩

/-- Every header is found behind the sections in front of it. -/
theorem WellFormed.findIndex_eq
    {before after : List (Fin 7 × List Text)}
    {i : Fin 7}
    {body : List Text}
    (shape : file.sections = before ++ (i, body) :: after)
    (other : ∀ entry ∈ before, entry.1 ≠ i) :
    findIndex (readFromFile file.content) (parts i) = offset before := by
  rw [file.readFromFile_content shape]
  apply findIndex_blocks other
  intro entry member
  apply wellFormed.headless_sections
  rw [shape]
  exact List.mem_append_left _ member

theorem WellFormed.findIndex_last :
    findIndex (readFromFile file.content) (parts 6) = offset file.sections := by
  rw [file.readFromFile_content_tail]
  apply findIndex_blocks _ wellFormed.headless_sections
  intro entry member
  have headers : ∀ header ∈ file.sections.map Prod.fst, header ≠ 6 := by
    simp [sections]
  exact headers entry.1 (List.mem_map_of_mem member)

end

end QueryFile

/-! ## Sections -/

theorem unlines_eq_joinWith
    {quan : Char}
    {fields : List Text}
    (present : fields ≠ []) :
    unlines quan fields = joinWith quan fields ++ [quan] := by
  induction fields with
  | nil => exact absurd rfl present
  | cons field rest inductionHypothesis =>
      cases rest with
      | nil => simp [joinWith]
      | cons next rest =>
          rw [unlines_cons, inductionHypothesis (by simp)]
          simp [joinWith]

theorem unlines_singleton (separator : Char) (text : Text) :
    unlines separator [text] = text ++ [separator] := by
  simp

/-- The number of grouping variables is read from the line between its header
and the next. -/
theorem number_blocks
    (sections : List (Fin 7 × List Text))
    (i : Fin 7)
    (n : Nat)
    (rest : Text) :
    substr
      (unlines '\n' (blocks sections) ++
        (parts i ++ '\n' :: (unlines '\n' [numeral n] ++ rest)))
      (toSize (offset sections + (parts i).length))
      (toSize (offset (sections ++ [(i, [numeral n])]) - (offset sections + (parts i).length))) =
      .ok ('\n' :: (numeral n ++ ['\n'])) := by
  have start : toSize ((offset sections : Int) + (parts i).length) =
      (unlines '\n' (blocks sections) ++ parts i).length := by
    rw [toSize_of_nonneg (by omega)]
    simp only [offset, List.length_append]
    omega
  have count : toSize ((offset (sections ++ [(i, [numeral n])]) : Int) -
      (offset sections + (parts i).length)) = ('\n' :: (numeral n ++ ['\n'])).length := by
    rw [offset_append, unlines_singleton]
    simp only [List.length_append, List.length_cons]
    rw [toSize_of_nonneg (by omega)]
    omega
  have shape : unlines '\n' (blocks sections) ++
      (parts i ++ '\n' :: (unlines '\n' [numeral n] ++ rest)) =
      unlines '\n' (blocks sections) ++ parts i ++ ('\n' :: (numeral n ++ ['\n']) ++ rest) := by
    rw [unlines_singleton]
    simp only [List.append_assoc, List.cons_append]
  rw [start, count, shape, substr_eq_ok (by simp only [List.length_append]; omega),
    List.drop_left, List.take_left]

/-- `atoi` of the number line. -/
theorem atoi_trim_number
    {n : Nat}
    (small : n < 2 ^ 31) :
    atoi (trim ('\n' :: (numeral n ++ ['\n']))) = n := by
  have trimmed : trim ('\n' :: (numeral n ++ ['\n'])) = numeral n ++ ['\n'] := by
    rw [trim_eq_dropWhile, List.dropWhile_cons_of_pos (by decide),
      dropWhile_numeral_append isBlank_eq_false_of_isDigit]
  rw [trimmed]
  apply atoi_numeral_append small
  intro next isNext
  cases isNext
  decide

namespace QueryFile

variable {file : QueryFile} (wellFormed : file.WellFormed)
include wellFormed

/-- A section of one text is cut exactly. -/
theorem WellFormed.sectionText_eq
    {before after : List (Fin 7 × List Text)}
    {i : Fin 7}
    {body : List Text}
    {text : Text}
    (shape : file.sections = before ++ (i, body) :: after)
    (other : ∀ entry ∈ before, entry.1 ≠ i)
    (oneText : unlines '\n' body = text ++ ['\n'])
    {stop : Int}
    (next : stop = offset (before ++ [(i, body)])) :
    sectionText (readFromFile file.content) (parts i)
      (findIndex (readFromFile file.content) (parts i)) stop = .ok text := by
  rw [wellFormed.findIndex_eq shape other, next, file.readFromFile_content shape]
  exact sectionText_blocks before i oneText _

/-- The such-that section is empty without grouping variables. -/
theorem WellFormed.svc_eq :
    svcText (readFromFile file.content) file.n
      (findIndex (readFromFile file.content) (parts 5))
      (findIndex (readFromFile file.content) (parts 6)) = .ok file.svc := by
  rw [svc, svcText]
  by_cases some : 0 < file.n
  · have present : file.conditions ≠ [] := by
      intro empty
      have count := wellFormed.count
      rw [empty, List.length_nil] at count
      omega
    rw [if_pos some, if_pos (by omega)]
    exact wellFormed.sectionText_eq
      (show file.sections = file.sections.take 5 ++ _ :: [] from rfl) (by simp [sections])
      (unlines_eq_joinWith present) wellFormed.findIndex_last
  · rw [if_neg some, if_neg (by omega)]

/-- The number line. -/
theorem WellFormed.number_eq :
    substr (readFromFile file.content)
      (toSize (findIndex (readFromFile file.content) (parts 2) + (parts 2).length))
      (toSize (findIndex (readFromFile file.content) (parts 3) -
        (findIndex (readFromFile file.content) (parts 2) + (parts 2).length))) =
      .ok ('\n' :: (numeral file.n ++ ['\n'])) := by
  rw [wellFormed.findIndex_eq
      (show file.sections = file.sections.take 2 ++ _ :: file.sections.drop 3 from rfl)
      (by simp [sections]),
    wellFormed.findIndex_eq
      (show file.sections = file.sections.take 3 ++ _ :: file.sections.drop 4 from rfl)
      (by simp [sections]),
    file.readFromFile_content
      (show file.sections = file.sections.take 2 ++ _ :: file.sections.drop 3 from rfl)]
  exact number_blocks (file.sections.take 2) 2 file.n _

/-- The last section is open-ended. -/
theorem WellFormed.having_eq :
    substr (readFromFile file.content)
      (toSize (findIndex (readFromFile file.content) (parts 6) + (parts 6).length + 1))
      (readFromFile file.content).length = .ok ((file.tail ++ ['\n']).drop 1) := by
  have start : toSize ((offset file.sections : Int) + (parts 6).length + 1) =
      (unlines '\n' (blocks file.sections) ++ parts 6).length + 1 := by
    rw [toSize_of_nonneg (by omega)]
    simp only [offset, List.length_append]
    omega
  rw [wellFormed.findIndex_last, start, file.readFromFile_content_tail, ← List.append_assoc,
    substr_eq_ok (by simp), ← List.drop_drop, List.drop_left]
  congr 1
  apply List.take_of_length_le
  simp only [List.length_drop, List.length_append]
  omega

/-- `parse_file_input` cuts the sections of a well-formed file exactly; only
the last one keeps the line ends behind it. -/
theorem WellFormed.fileSections_eq :
    fileSections (readFromFile file.content) =
      .ok ⟨file.s, file.whereText, file.n, file.v, file.f, file.svc,
        (file.tail ++ ['\n']).drop 1⟩ := by
  have s := wellFormed.sectionText_eq
    (show file.sections = file.sections.take 0 ++ _ :: file.sections.drop 1 from rfl)
    (by simp [sections]) (unlines_singleton '\n' file.s)
    (wellFormed.findIndex_eq
      (show file.sections = file.sections.take 1 ++ _ :: file.sections.drop 2 from rfl)
      (by simp [sections]))
  have whereText := wellFormed.sectionText_eq
    (show file.sections = file.sections.take 1 ++ _ :: file.sections.drop 2 from rfl)
    (by simp [sections]) (unlines_singleton '\n' file.whereText)
    (wellFormed.findIndex_eq
      (show file.sections = file.sections.take 2 ++ _ :: file.sections.drop 3 from rfl)
      (by simp [sections]))
  have v := wellFormed.sectionText_eq
    (show file.sections = file.sections.take 3 ++ _ :: file.sections.drop 4 from rfl)
    (by simp [sections]) (unlines_singleton '\n' file.v)
    (wellFormed.findIndex_eq
      (show file.sections = file.sections.take 4 ++ _ :: file.sections.drop 5 from rfl)
      (by simp [sections]))
  have f := wellFormed.sectionText_eq
    (show file.sections = file.sections.take 4 ++ _ :: file.sections.drop 5 from rfl)
    (by simp [sections]) (unlines_singleton '\n' file.f)
    (wellFormed.findIndex_eq
      (show file.sections = file.sections.take 5 ++ _ :: file.sections.drop 6 from rfl)
      (by simp [sections]))
  have number := atoi_trim_number wellFormed.small
  simp only [fileSections, s, whereText, v, f, wellFormed.number_eq, number, wellFormed.svc_eq,
    wellFormed.having_eq, bind, Except.bind]
  rfl

/-- The such-that lines are split apart again. -/
theorem WellFormed.explode_svc
    (some : 0 < file.n) :
    explode "\n" file.svc = .ok (.some file.conditions) := by
  have present : file.conditions ≠ [] := by
    intro empty
    have count := wellFormed.count
    rw [empty, List.length_nil] at count
    omega
  rw [svc, if_pos some]
  exact explode_join '\n' file.conditions present wellFormed.conditionLines

end QueryFile

/-! ## Recovering a file -/

/-- The parser computes the texts and the number of the file, and its such-that
lines when there are grouping variables. -/
structure QueryFile.Recovered (file : QueryFile) : Prop where
  sections : ∃ sections, fileSections (readFromFile file.content) = .ok sections ∧
    sections.s = file.s ∧ sections.whereText = file.whereText ∧
    sections.noGroupingVars = file.n ∧ sections.v = file.v ∧ sections.f = file.f
  conditions : 0 < file.n → ∃ query, parseFileInput file.content = .ok query ∧
    query.selectCondVect = some file.conditions

/-- The lists of a file that is parsed to the end have no short last entry. -/
theorem QueryFile.WellFormed.endsShort_eq_false
    {file : QueryFile}
    (wellFormed : file.WellFormed)
    {query : UserQuery}
    (parsed : parseFileInput file.content = .ok query) :
    ∀ text ∈ [file.s, file.v, file.f], endsShort text = false := by
  simp only [parseFileInput, wellFormed.fileSections_eq, bind_eq_ok_iff, Except.ok.injEq,
    exists_eq_left'] at parsed
  obtain ⟨select, ofS, grouping, ofV, fVect, ofF, -⟩ := parsed
  simp only [List.forall_mem_cons, List.not_mem_nil, false_imp_iff, implies_true, and_true,
    ← explode_comma_returns_iff]
  exact ⟨⟨select, ofS⟩, ⟨grouping, ofV⟩, ⟨fVect, ofF⟩⟩

/-- What a well-formed file without short last entries is parsed to. -/
theorem QueryFile.WellFormed.parseFileInput_eq
    {file : QueryFile}
    (wellFormed : file.WellFormed)
    (some : 0 < file.n)
    (long : ∀ text ∈ [file.s, file.v, file.f], endsShort text = false) :
    ∃ select grouping fVect, parseFileInput file.content =
      .ok ⟨select, file.whereText, file.n, grouping, fVect, .some file.conditions,
        (file.tail ++ ['\n']).drop 1⟩ := by
  simp only [List.forall_mem_cons, List.not_mem_nil, false_imp_iff, implies_true, and_true,
    ← explode_comma_returns_iff] at long
  obtain ⟨⟨select, ofS⟩, ⟨grouping, ofV⟩, ⟨fVect, ofF⟩⟩ := long
  refine ⟨select, grouping, fVect, ?_⟩
  simp only [parseFileInput, wellFormed.fileSections_eq, bind_eq_ok_iff, Except.ok.injEq,
    exists_eq_left', ofS, ofV, ofF, wellFormed.explode_svc some]
  rfl

/-- A well-formed file is recovered exactly when it has no grouping variables or
none of its lists ends in an entry of one character: splitting such a list
throws before the such-that lines are split. -/
theorem file_recovered_iff
    (file : QueryFile)
    (wellFormed : file.WellFormed) :
    file.Recovered ↔
      file.n = 0 ∨ ∀ text ∈ [file.s, file.v, file.f], endsShort text = false := by
  constructor
  · rintro ⟨-, conditions⟩
    by_cases none : file.n = 0
    · exact Or.inl none
    · obtain ⟨query, parsed, -⟩ := conditions (by omega)
      exact Or.inr (wellFormed.endsShort_eq_false parsed)
  · intro long
    constructor
    · exact ⟨_, wellFormed.fileSections_eq, rfl, rfl, rfl, rfl, rfl⟩
    · intro some
      obtain ⟨select, grouping, fVect, parsed⟩ :=
        wellFormed.parseFileInput_eq some (long.resolve_left (by omega))
      exact ⟨_, parsed, rfl⟩

/-- A query file with one grouping variable. -/
def quantityFile (s v : Text) : QueryFile where
  s := s
  whereText := "year = 1997"
  n := 1
  v := v
  f := "1_sum_quant"
  conditions := ["1.quant>5"]
  tail := "\n1_sum_quant > 10"

theorem quantityFile_wellFormed
    {s v : Text}
    (sHeadless : Headless s)
    (vHeadless : Headless v) :
    (quantityFile s v).WellFormed := by
  have conditions : (quantityFile s v).conditions = ["1.quant>5".toList] := rfl
  have whereText : Headless "year = 1997" := by decide +kernel
  have f : Headless "1_sum_quant" := by decide +kernel
  constructor
  · rw [conditions]
    constructor
    · decide
    · decide
    · intro last isLast
      cases isLast
      exact ⟨'q', by decide, by decide⟩
  · rfl
  · exact (by decide : 1 < 2 ^ 31)
  · simp only [quantityFile, List.forall_mem_cons, List.not_mem_nil, false_imp_iff, implies_true,
      and_true]
    exact ⟨sHeadless, whereText, vHeadless, f⟩
  · rw [conditions]
    decide +kernel

/-- A file over longer names is recovered. -/
theorem file_recovered_iff_cust :
    (quantityFile "cust, 1_sum_quant" "cust").Recovered := by
  have wellFormed : (quantityFile "cust, 1_sum_quant" "cust").WellFormed := by
    apply quantityFile_wellFormed
    · decide +kernel
    · decide +kernel
  exact (file_recovered_iff _ wellFormed).mpr (Or.inr (by decide))

/-- The such-that line of a file that groups by a column `x` is not
recovered. -/
theorem one_letter_column_not_recovered :
    (quantityFile "x, 1_sum_quant" "x").WellFormed ∧
      ¬(quantityFile "x, 1_sum_quant" "x").Recovered := by
  have wellFormed : (quantityFile "x, 1_sum_quant" "x").WellFormed := by
    apply quantityFile_wellFormed
    · decide +kernel
    · decide +kernel
  refine ⟨wellFormed, ?_⟩
  rintro ⟨-, conditions⟩
  obtain ⟨query, parsed, -⟩ := conditions (by decide)
  have long := wellFormed.endsShort_eq_false parsed "x" (by decide)
  exact absurd long (by decide)

end MfQuery
