import MfQuery.FrontEnd.File
import MfQuery.ScanGenerator

/-!
# HAVING from both front ends

The answer at the prompt is one line without its line end. The last section of
a file is everything behind the header, with the newline that `read_from_file`
adds and the one that ended the file, so even a blank section is not the empty
text that `parse_having` takes for true.
-/

namespace MfQuery

open Text

/-- The file carries the text in its last section, with or without a newline at
the end of the file. -/
inductive QueryFile.Carries (file : QueryFile) (text : Text) : Prop where
  | open_end (tail : file.tail = '\n' :: text)
  | newline (tail : file.tail = '\n' :: (text ++ ['\n']))
  | nothing (empty : text = []) (tail : file.tail = [])

/-- Both front ends pass the same text, and a blank one means true. -/
structure SameHaving (fromFile fromUser : UserQuery) (text : Text) : Prop where
  same : fromFile.having = fromUser.having
  blank : text = [] → ∀ generator : ScanGenerator,
    { generator with having := fromFile.having }.parseHaving = some "true".toList ∧
      { generator with having := fromUser.having }.parseHaving = some "true".toList

theorem QueryFile.WellFormed.having_of_parsed
    {file : QueryFile}
    (wellFormed : file.WellFormed)
    {query : UserQuery}
    (parsed : parseFileInput file.content = .ok query) :
    query.having = (file.tail ++ ['\n']).drop 1 := by
  simp only [parseFileInput, wellFormed.fileSections_eq, bind_eq_ok_iff, Except.ok.injEq,
    exists_eq_left'] at parsed
  obtain ⟨_, -, _, -, _, -, _, -, returned⟩ := parsed
  cases returned
  rfl

theorem having_of_answers
    {session : Text}
    {answers : Answers}
    (typed : readAnswers session = .ok answers)
    {query : UserQuery}
    (parsed : parseUserInput session = .ok query) :
    query.having = answers.having := by
  simp only [parseUserInput, typed, bind_eq_ok_iff, Except.ok.injEq, exists_eq_left'] at parsed
  obtain ⟨_, -, _, -, _, -, returned⟩ := parsed
  cases returned
  rfl

theorem parseHaving_nil (generator : ScanGenerator) :
    { generator with having := [] }.parseHaving = some "true".toList := rfl

/-- Both front ends give HAVING the same text exactly when the file ends
directly behind its last header. -/
theorem having_agrees_iff
    (file : QueryFile)
    (wellFormed : file.WellFormed)
    (text : Text)
    (carries : file.Carries text)
    (session : Text)
    (answers : Answers)
    (typed : readAnswers session = .ok answers)
    (answered : answers.having = text)
    (fromFile fromUser : UserQuery)
    (parsedFile : parseFileInput file.content = .ok fromFile)
    (parsedUser : parseUserInput session = .ok fromUser) :
    SameHaving fromFile fromUser text ↔ file.tail = [] := by
  have having := wellFormed.having_of_parsed parsedFile
  have answer := having_of_answers typed parsedUser
  rw [answered] at answer
  constructor
  · rintro ⟨same, -⟩
    rw [having, answer] at same
    cases carries with
    | open_end tail =>
        rw [tail] at same
        have length := congrArg List.length same
        simp at length
    | newline tail =>
        rw [tail] at same
        have length := congrArg List.length same
        simp at length
    | nothing _ tail => exact tail
  · intro tail
    have empty : text = [] := by
      cases carries with
      | open_end shape => simp [tail] at shape
      | newline shape => simp [tail] at shape
      | nothing empty _ => exact empty
    rw [tail] at having
    rw [empty] at answer
    constructor
    · rw [having, answer]
      rfl
    · intro _ generator
      rw [having, answer]
      exact ⟨parseHaving_nil generator, parseHaving_nil generator⟩

/-- A file without HAVING text. -/
def blankFile (tail : Text) : QueryFile :=
  { quantityFile "cust, 1_sum_quant" "cust" with tail := tail }

/-- The same query at the prompt. -/
def blankSession : Text :=
  "cust, 1_sum_quant\nyear = 1997\n1\ncust\n1_sum_quant\n1.quant>5\n\n"

theorem blankFile_wellFormed (tail : Text) : (blankFile tail).WellFormed := by
  have base : (quantityFile "cust, 1_sum_quant" "cust").WellFormed := by
    apply quantityFile_wellFormed
    · decide +kernel
    · decide +kernel
  exact ⟨base.conditionLines, base.count, base.small, base.headless, base.headlessConditions⟩

theorem parseFileInput_blankFile (tail : Text) :
    ∃ select grouping fVect, parseFileInput (blankFile tail).content =
      .ok ⟨select, "year = 1997", 1, grouping, fVect, some ["1.quant>5".toList],
        (tail ++ ['\n']).drop 1⟩ := by
  apply (blankFile_wellFormed tail).parseFileInput_eq
  · exact Nat.one_pos
  · exact (by decide : ∀ text ∈ ["cust, 1_sum_quant".toList, "cust".toList, "1_sum_quant".toList],
      endsShort text = false)

theorem readAnswers_blankSession :
    readAnswers blankSession =
      .ok ⟨"cust, 1_sum_quant", "year = 1997", 1, "cust", "1_sum_quant", ["1.quant>5".toList],
        []⟩ := by
  rfl

theorem parseUserInput_blankSession :
    parseUserInput blankSession =
      .ok ⟨some ["cust".toList, "1_sum_quant".toList], "year = 1997", 1, some ["cust".toList],
        some ["1_sum_quant".toList], some ["1.quant>5".toList], []⟩ := by
  rfl

/-- Without anything behind the last header both pass the empty text. -/
theorem having_agrees_iff_nothing :
    ∃ fromFile fromUser, parseFileInput (blankFile []).content = .ok fromFile ∧
      parseUserInput blankSession = .ok fromUser ∧ SameHaving fromFile fromUser [] := by
  obtain ⟨select, grouping, fVect, parsed⟩ := parseFileInput_blankFile []
  refine ⟨_, _, parsed, parseUserInput_blankSession, ?_⟩
  exact (having_agrees_iff (blankFile []) (blankFile_wellFormed []) [] (.nothing rfl rfl)
    blankSession _ readAnswers_blankSession rfl _ _ parsed parseUserInput_blankSession).mpr rfl

/-- A file that ends with an empty line behind the last header passes a newline,
and the emitted test is an empty expression. -/
theorem blank_having_is_not_true :
    ∃ fromFile fromUser, parseFileInput (blankFile "\n").content = .ok fromFile ∧
      parseUserInput blankSession = .ok fromUser ∧ fromFile.having = ['\n'] ∧
      fromUser.having = [] ∧
      ∀ generator : ScanGenerator,
        { generator with having := fromFile.having }.parseHaving = some [] := by
  obtain ⟨select, grouping, fVect, parsed⟩ := parseFileInput_blankFile "\n"
  refine ⟨_, _, parsed, parseUserInput_blankSession, rfl, rfl, ?_⟩
  intro generator
  rfl

end MfQuery
