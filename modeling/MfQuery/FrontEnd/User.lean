import MfQuery.FrontEnd.Explode

/-!
# Front ends

A query comes from a file with seven headed sections or from seven answers at
the prompt. `parse_file_input` cuts the sections out of the file by offsets
between the first occurrences of the headers; `parse_user_input` reads line by
line. Both hand the same arguments to `parse_query`.
-/

namespace MfQuery

open Text

/-! ## Input streams -/

/-- What is left of an input stream, and its state bits. -/
structure Stream where
  rest : Text
  eof : Bool
  fail : Bool
  deriving DecidableEq, Repr

namespace Stream

/-- A stream at its first character. -/
def opened (content : Text) : Stream := ⟨content, false, false⟩

/-- `getline(stream, str)`. Reading nothing, not even a line end, sets the fail
bit; a stream that is not good leaves the string alone. -/
def getline (stream : Stream) (str : Text) : Text × Stream :=
  if stream.eof || stream.fail then (str, { stream with fail := true })
  else
    let line := stream.rest.takeWhile (· ≠ '\n')
    match stream.rest.dropWhile (· ≠ '\n') with
    | [] => (line, ⟨[], true, decide (line = [])⟩)
    | _ :: rest => (line, ⟨rest, false, false⟩)

/-- `stream.getline(buffer, size)`, as the C string in the buffer. A line that
does not fit sets the fail bit. -/
def getlineBuffer (size : Nat) (stream : Stream) : Text × Stream :=
  if stream.eof || stream.fail then ([], { stream with fail := true })
  else if (stream.rest.takeWhile (· ≠ '\n')).length < size then
    let (line, after) := stream.getline []
    (line.takeWhile (· ≠ '\x00'), after)
  else
    ((stream.rest.take (size - 1)).takeWhile (· ≠ '\x00'),
      ⟨stream.rest.drop (size - 1), false, true⟩)

end Stream

/-- The loop of `read_from_file`. -/
def readLines : Nat → Stream → Text → Text → Text
  | 0, _, _, out => out
  | fuel + 1, file, tmp, out =>
      if file.eof then out
      else
        let (tmp, file) := file.getline tmp
        readLines fuel file tmp (out ++ tmp ++ "\n")

/-- `read_from_file`, on the content of the file. -/
def readFromFile (content : Text) : Text :=
  readLines (content.length + 2) (.opened content) [] []

/-! ## Query files -/

/-- Headers are numbered from `0` to `6`. -/
instance neZero_parts : NeZero 7 := ⟨by decide⟩

/-- The section headers. -/
def parts : Fin 7 → Text
  | 0 => "SELECT ATTRIBUTE(S):"
  | 1 => "WHERE(W):"
  | 2 => "NUMBER OF GROUPING VARIABLES(n):"
  | 3 => "GROUPING ATTRIBUTES(V):"
  | 4 => "F-VECT([F]):"
  | 5 => "SELECT CONDITION-VECT([σ]):"
  | 6 => "HAVING_CONDITION(G):"

/-- `data.find(part)` as a signed index. -/
def findIndex (data part : Text) : Int :=
  match find data part with
  | none => -1
  | some index => index

/-- The sections of a query. -/
structure Sections where
  s : Text
  whereText : Text
  noGroupingVars : Int
  v : Text
  f : Text
  svc : Text
  having : Text
  deriving DecidableEq, Repr

/-- The line behind the header at `start`, up to the header at `stop`. -/
def sectionText (data header : Text) (start stop : Int) : Except Failure Text :=
  substr data (toSize (start + header.length + 1)) (toSize (stop - (start + header.length + 2)))

/-- The such-that section, which is only cut out for a positive number of
grouping variables. -/
def svcText (data : Text) (noGroupingVars start stop : Int) : Except Failure Text :=
  if noGroupingVars > 0 then sectionText data (parts 5) start stop else .ok []

/-- The sections `parse_file_input` cuts out of the file. -/
def fileSections (data : Text) : Except Failure Sections := do
  let index1 := findIndex data (parts 0)
  let index2 := findIndex data (parts 1)
  let index3 := findIndex data (parts 2)
  let index4 := findIndex data (parts 3)
  let index5 := findIndex data (parts 4)
  let index6 := findIndex data (parts 5)
  let index7 := findIndex data (parts 6)
  let s ← sectionText data (parts 0) index1 index2
  let whereText ← sectionText data (parts 1) index2 index3
  let number ← substr data (toSize (index3 + (parts 2).length))
    (toSize (index4 - (index3 + (parts 2).length)))
  let noGroupingVars := atoi (trim number)
  let v ← sectionText data (parts 3) index4 index5
  let f ← sectionText data (parts 4) index5 index6
  let svc ← svcText data noGroupingVars index6 index7
  let having ← substr data (toSize (index7 + (parts 6).length + 1)) data.length
  return ⟨s, whereText, noGroupingVars, v, f, svc, having⟩

/-- The arguments of `parse_query`; `none` is a null pointer. -/
structure UserQuery where
  selectAttribute : Option (List Text)
  whereText : Text
  noGroupingVars : Int
  groupingAttr : Option (List Text)
  fVect : Option (List Text)
  selectCondVect : Option (List Text)
  having : Text
  deriving DecidableEq, Repr

/-- `parse_file_input`, on the content of the file. -/
def parseFileInput (content : Text) : Except Failure UserQuery := do
  let sections ← fileSections (readFromFile content)
  let selectAttribute ← explode comma sections.s
  let groupingAttr ← explode comma sections.v
  let fVect ← explode comma sections.f
  let selectCondVect ← explode "\n" sections.svc
  return ⟨selectAttribute, sections.whereText, sections.noGroupingVars, groupingAttr, fVect,
    selectCondVect, sections.having⟩

/-! ## The prompt -/

/-- The loop of `parse_user_input` over the grouping variables. -/
def readConditions : Nat → Stream → List Text × Stream
  | 0, cin => ([], cin)
  | count + 1, cin =>
      let (line, cin) := cin.getlineBuffer 500
      let (lines, cin) := readConditions count cin
      (line :: lines, cin)

/-- The answers `parse_user_input` reads. -/
structure Answers where
  s : Text
  whereText : Text
  noGroupingVars : Int
  v : Text
  f : Text
  selectCondVect : List Text
  having : Text
  deriving DecidableEq, Repr

/-- The answers, in the order of the questions. -/
def readAnswers (session : Text) : Except Failure Answers := do
  let (s, cin) := (Stream.opened session).getline []
  let (whereText, cin) := cin.getline []
  let (n, cin) := cin.getline []
  let noGroupingVars ← orThrow (stoi n)
  let (v, cin) := cin.getline []
  let (f, cin) := cin.getline []
  let (selectCondVect, cin) := readConditions noGroupingVars.toNat cin
  let (having, _) := cin.getline []
  return ⟨s, whereText, noGroupingVars, v, f, selectCondVect, having⟩

/-- `parse_user_input`. -/
def parseUserInput (session : Text) : Except Failure UserQuery := do
  let answers ← readAnswers session
  let selectAttribute ← explode comma answers.s
  let groupingAttr ← explode comma answers.v
  let fVect ← explode comma answers.f
  return ⟨selectAttribute, answers.whereText, answers.noGroupingVars, groupingAttr, fVect,
    some answers.selectCondVect, answers.having⟩

/-! ## Reading files -/

namespace Stream

theorem getline_line
    {line : Text}
    (free : '\n' ∉ line)
    (rest str : Text) :
    (opened (line ++ '\n' :: rest)).getline str = (line, opened rest) := by
  have taken : (line ++ '\n' :: rest).takeWhile (· ≠ '\n') = line := by
    rw [List.takeWhile_append_of_pos (forall_ne_of_notMem free)]
    simp
  have dropped : (line ++ '\n' :: rest).dropWhile (· ≠ '\n') = '\n' :: rest := by
    rw [List.dropWhile_append_of_pos (forall_ne_of_notMem free)]
    simp
  simp only [getline, opened, taken, dropped]
  rfl

theorem getline_last
    {line : Text}
    (free : '\n' ∉ line)
    (str : Text) :
    (opened line).getline str = (line, ⟨[], true, decide (line = [])⟩) := by
  have whole : line.takeWhile (· ≠ '\n') = line :=
    List.takeWhile_eq_self_iff.mpr (forall_ne_of_notMem free)
  have empty : line.dropWhile (· ≠ '\n') = [] :=
    List.dropWhile_eq_nil_iff.mpr (forall_ne_of_notMem free)
  simp only [getline, opened, whole, empty]
  rfl

end Stream

/-- The loop copies the rest of the file and ends it with a newline. -/
theorem readLines_opened
    (fuel : Nat)
    (content tmp out : Text)
    (enough : content.length + 1 < fuel) :
    readLines fuel (.opened content) tmp out = out ++ content ++ "\n" := by
  induction fuel generalizing content tmp out with
  | zero => omega
  | succ fuel inductionHypothesis =>
      have notEof : (Stream.opened content).eof = false := rfl
      rw [readLines, notEof]
      by_cases more : '\n' ∈ content
      · obtain ⟨line, rest, rfl, free⟩ := List.eq_append_cons_of_mem more
        rw [List.length_append, List.length_cons] at enough
        have later := inductionHypothesis rest line (out ++ line ++ "\n") (by omega)
        simp only [Bool.false_eq_true, if_false, Stream.getline_line free, later]
        simp
      · obtain ⟨fuel, rfl⟩ : ∃ less, fuel = less + 1 := ⟨fuel - 1, by omega⟩
        simp only [Bool.false_eq_true, if_false, Stream.getline_last more, readLines, if_true]

/-- Reading a file adds a newline to its content, whether or not it ends with
one. -/
theorem readFromFile_eq (content : Text) : readFromFile content = content ++ "\n" := by
  rw [readFromFile, readLines_opened _ content [] [] (by omega)]
  rfl

end MfQuery
