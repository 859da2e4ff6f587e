import MfQuery.FrontEnd.User
import MfQuery.Lib.Lines

/-!
# Answers at the prompt

`parse_user_input` reads the such-that lines into a buffer of 500 characters
and all other answers into strings. A line that does not fit leaves the stream
in a failed state, in which every later read comes back empty.
-/

namespace MfQuery

open Text
open Lines (unlines)

/-- The answers a user types, one line each, and what is typed after them. The
number of grouping variables is the number of such-that lines. -/
structure PromptSession where
  s : Text
  whereText : Text
  number : Text
  v : Text
  f : Text
  lines : List Text
  having : Text
  rest : Text
  isNumber : stoi number = some (lines.length : Int)
  singleLines : ∀ line ∈ [s, whereText, number, v, f, having] ++ lines, '\n' ∉ line
  ends : rest = [] ∨ ∃ more, rest = '\n' :: more

namespace PromptSession

/-- The text behind the fifth answer. -/
def later (session : PromptSession) : Text :=
  unlines '\n' session.lines ++ (session.having ++ session.rest)

/-- The whole input. -/
def content (session : PromptSession) : Text :=
  unlines '\n' [session.s, session.whereText, session.number, session.v, session.f] ++
    session.later

end PromptSession

/-! ## Reading into the buffer -/

namespace Stream

/-- A line that fits is read up to its first zero character. -/
theorem getlineBuffer_line
    {line : Text}
    (free : '\n' ∉ line)
    (fits : line.length < 500)
    (rest : Text) :
    (opened (line ++ '\n' :: rest)).getlineBuffer 500 =
      (line.takeWhile (· ≠ '\x00'), opened rest) := by
  have taken : (line ++ '\n' :: rest).takeWhile (· ≠ '\n') = line := by
    rw [List.takeWhile_append_of_pos (forall_ne_of_notMem free)]
    simp
  have read := getline_line free rest []
  rw [getlineBuffer]
  simp only [opened, Bool.or_self, Bool.false_eq_true, if_false, taken, if_pos fits] at read ⊢
  rw [read]

/-- A line that does not fit is cut, and the stream fails. -/
theorem getlineBuffer_long
    {line : Text}
    (free : '\n' ∉ line)
    (long : 500 ≤ line.length)
    (rest : Text) :
    (opened (line ++ '\n' :: rest)).getlineBuffer 500 =
      ((line.take 499).takeWhile (· ≠ '\x00'),
        ⟨line.drop 499 ++ '\n' :: rest, false, true⟩) := by
  have taken : (line ++ '\n' :: rest).takeWhile (· ≠ '\n') = line := by
    rw [List.takeWhile_append_of_pos (forall_ne_of_notMem free)]
    simp
  have front : (line ++ '\n' :: rest).take 499 = line.take 499 :=
    List.take_append_of_le_length (by omega)
  have back : (line ++ '\n' :: rest).drop 499 = line.drop 499 ++ '\n' :: rest :=
    List.drop_append_of_le_length (by omega)
  rw [getlineBuffer]
  simp only [opened, Bool.or_self, Bool.false_eq_true, if_false, taken,
    if_neg (Nat.not_lt.mpr long)]
  rw [front, back]

end Stream

/-- The lines the buffer takes whole. -/
def TakenWhole (line : Text) : Prop := line.length < 500 ∧ '\x00' ∉ line

/-- The loop over the grouping variables returns the lines exactly when the
buffer takes each of them whole. -/
theorem readConditions_eq_iff
    (lines : List Text)
    (singleLines : ∀ line ∈ lines, '\n' ∉ line)
    (rest : Text) :
    (readConditions lines.length (.opened (unlines '\n' lines ++ rest))).1 = lines ↔
      ∀ line ∈ lines, TakenWhole line := by
  induction lines with
  | nil => simp [readConditions]
  | cons line lines inductionHypothesis =>
      rw [List.forall_mem_cons] at singleLines
      have later := inductionHypothesis singleLines.2
      rw [List.forall_mem_cons, List.length_cons, readConditions, Lines.unlines_cons,
        List.append_assoc, List.cons_append]
      by_cases fits : line.length < 500
      · have whole : line.takeWhile (· ≠ '\x00') = line ↔ '\x00' ∉ line := by
          rw [List.takeWhile_eq_self_iff]
          constructor
          · intro clear member
            exact absurd (clear _ member) (by decide)
          · exact forall_ne_of_notMem
        rw [Stream.getlineBuffer_line singleLines.1 fits]
        simp only [List.cons.injEq, whole, later, TakenWhole, fits, true_and]
      · rw [Stream.getlineBuffer_long singleLines.1 (by omega)]
        simp only [List.cons.injEq, TakenWhole, fits, false_and, iff_false, not_and]
        intro same
        have short := (List.takeWhile_prefix (p := (· ≠ '\x00')) (l := line.take 499)).length_le
        rw [same, List.length_take] at short
        omega

/-- A last line that does not fit leaves a failed stream. -/
theorem readConditions_long
    {line : Text}
    (free : '\n' ∉ line)
    (long : 500 ≤ line.length)
    (rest : Text) :
    readConditions 1 (.opened (line ++ '\n' :: rest)) =
      ([(line.take 499).takeWhile (· ≠ '\x00')],
        ⟨line.drop 499 ++ '\n' :: rest, false, true⟩) := by
  rw [readConditions, Stream.getlineBuffer_long free long]
  rfl

/-- Behind lines that fit the stream goes on. -/
theorem readConditions_stream
    (lines : List Text)
    (singleLines : ∀ line ∈ lines, '\n' ∉ line)
    (fit : ∀ line ∈ lines, TakenWhole line)
    (rest : Text) :
    (readConditions lines.length (.opened (unlines '\n' lines ++ rest))).2 = .opened rest := by
  induction lines with
  | nil => rfl
  | cons line lines inductionHypothesis =>
      rw [List.forall_mem_cons] at singleLines fit
      rw [List.length_cons, readConditions, Lines.unlines_cons, List.append_assoc,
        List.cons_append, Stream.getlineBuffer_line singleLines.1 fit.1.1]
      exact inductionHypothesis singleLines.2 fit.2

/-! ## All answers -/

namespace PromptSession

variable (session : PromptSession)

/-- The answers in front of the such-that lines are read as they are. -/
theorem readAnswers_content :
    readAnswers session.content =
      .ok ⟨session.s, session.whereText, session.lines.length, session.v, session.f,
        (readConditions session.lines.length (.opened session.later)).1,
        ((readConditions session.lines.length (.opened session.later)).2.getline []).1⟩ := by
  have single := session.singleLines
  simp only [List.cons_append, List.nil_append, List.forall_mem_cons] at single
  obtain ⟨s, whereText, number, v, f, -, -⟩ := single
  simp only [readAnswers, content, Lines.unlines_cons, Lines.unlines_nil, List.append_assoc,
    List.cons_append, List.nil_append, Stream.getline_line s, Stream.getline_line whereText,
    Stream.getline_line number, Stream.getline_line v, Stream.getline_line f, session.isNumber,
    orThrow]
  rfl

/-- The HAVING line is read as it is from a stream in good state. -/
theorem getline_having :
    ((Stream.opened (session.having ++ session.rest)).getline []).1 = session.having := by
  have single : '\n' ∉ session.having := session.singleLines _ (by simp)
  rcases session.ends with nothing | ⟨more, newline⟩
  · rw [nothing, List.append_nil, Stream.getline_last single]
  · rw [newline, Stream.getline_line single]

end PromptSession

/-- A session whose such-that line is one character too long. -/
def longSession : PromptSession where
  s := "cust"
  whereText := "1=1"
  number := "1"
  v := "cust"
  f := "count_quant"
  lines := [List.replicate 500 '1']
  having := "count_quant > 1"
  rest := ['\n']
  isNumber := by decide
  singleLines := by
    have answers : ∀ line ∈ ["cust".toList, "1=1", "1", "cust", "count_quant", "count_quant > 1"],
        '\n' ∉ line := by decide
    intro line member
    rcases List.mem_append.mp member with answer | isLine
    · exact answers line answer
    · rw [List.mem_singleton.mp isLine, List.mem_replicate]
      exact fun isOne => absurd isOne.2 (by decide)
  ends := .inr ⟨[], rfl⟩

end MfQuery
