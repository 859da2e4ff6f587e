import MfQuery.FrontEnd.Having
import MfQuery.FrontEnd.Pipeline

/-!
# Empty sections

Which empty section makes the program use a null pointer, from either front
end. The pointers that reach `parse_query` are null exactly for empty texts,
and the pointer to the such-that conditions is null when no line was split
off.
-/

namespace MfQuery

open Text

/-! ## Pointers of texts -/

/-- Entries of a comma-separated text. -/
def listEntries (text : Text) : List Text :=
  match explode comma text with
  | .ok (some out) => out
  | _ => []

/-- The pointer `explode` returns. -/
def listPointer (text : Text) : Option (List Text) :=
  if text = [] then none else some (listEntries text)

@[simp] theorem getD_listPointer (text : Text) :
    (listPointer text).getD [] = listEntries text := by
  rw [listPointer]
  split_ifs with empty
  · rw [empty]
    rfl
  · rfl

@[simp] theorem listPointer_eq_none_iff (text : Text) : listPointer text = none ↔ text = [] := by
  rw [listPointer]
  split_ifs with empty
  · simp [empty]
  · simp [empty]

theorem explode_comma_eq
    {text : Text}
    (long : endsShort text = false) :
    explode comma text = .ok (listPointer text) := by
  obtain ⟨out, returns⟩ := (explode_comma_returns_iff text).mpr long
  rw [listPointer, listEntries, returns]
  cases text with
  | nil =>
      cases returns
      rfl
  | cons first rest =>
      rw [explode, if_neg (by simp [comma])] at returns
      cases loop : explodeLoop comma ((first :: rest).length + 2) (first :: rest) 0 with
      | error failure =>
          rw [loop] at returns
          cases returns
      | ok parts =>
          rw [loop] at returns
          cases returns
          rfl

/-- Where the such-that lines come from. -/
inductive SuchThat where
  | fromFile (svc : Text)
  | typed (lines : List Text)
  deriving DecidableEq, Repr

namespace SuchThat

/-- The such-that lines. -/
def lines : SuchThat → List Text
  | fromFile svc => cExplodeLoop '\n' [] svc
  | typed lines => lines

/-- The pointer passed on. -/
def pointer : SuchThat → Option (List Text)
  | fromFile svc => if svc = [] then none else some (cExplodeLoop '\n' [] svc)
  | typed lines => some lines

@[simp] theorem getD_pointer (suchThat : SuchThat) : suchThat.pointer.getD [] = suchThat.lines := by
  cases suchThat with
  | fromFile svc =>
      rw [pointer]
      split_ifs with empty
      · rw [empty]
        rfl
      · rfl
  | typed lines => rfl

end SuchThat

theorem explode_newline (svc : Text) :
    explode "\n" svc = .ok (SuchThat.fromFile svc).pointer := by
  cases svc with
  | nil => rfl
  | cons first rest =>
      have loop := explodeLoop_singleton '\n' ((first :: rest).length + 2) [] (first :: rest)
        (by simp) (by omega)
      rw [List.nil_append, List.length_nil] at loop
      have newline : ("\n" : Text) = ['\n'] := rfl
      rw [newline, explode, if_neg (by simp), loop]
      rfl

/-! ## Both front ends -/

/-- The texts a front end reads. -/
structure InputTexts where
  s : Text
  whereText : Text
  noGroupingVars : Int
  v : Text
  f : Text
  suchThat : SuchThat
  having : Text
  deriving DecidableEq, Repr

/-- The front ends of the program. -/
inductive FrontEnd where
  | file (content : Text)
  | prompt (session : Text)
  deriving DecidableEq, Repr

namespace FrontEnd

/-- The texts it reads. -/
def texts : FrontEnd → Except Failure InputTexts
  | file content => do
      let sections ← fileSections (readFromFile content)
      return ⟨sections.s, sections.whereText, sections.noGroupingVars, sections.v, sections.f,
        .fromFile sections.svc, sections.having⟩
  | prompt session => do
      let answers ← readAnswers session
      return ⟨answers.s, answers.whereText, answers.noGroupingVars, answers.v, answers.f,
        .typed answers.selectCondVect, answers.having⟩

/-- `parse_file_input` or `parse_user_input`. -/
def parse : FrontEnd → Except Failure UserQuery
  | file content => parseFileInput content
  | prompt session => parseUserInput session

/-- The pipeline from the front end to the generated texts. -/
def compile
    (columns : List Column)
    (stale : Option Text)
    (emf : Bool)
    (front : FrontEnd) : Except Failure (Text × Text) := do
  let query ← front.parse
  parseQuery columns stale emf query

end FrontEnd

/-- The arguments of `parse_query` for the texts. -/
def InputTexts.query (texts : InputTexts) : UserQuery where
  selectAttribute := listPointer texts.s
  whereText := texts.whereText
  noGroupingVars := texts.noGroupingVars
  groupingAttr := listPointer texts.v
  fVect := listPointer texts.f
  selectCondVect := texts.suchThat.pointer
  having := texts.having

namespace FrontEnd

variable {front : FrontEnd} {texts : InputTexts} (read : front.texts = .ok texts)
include read

/-- Both front ends split the three lists in the same order. -/
theorem parse_eq_explode :
    front.parse = (do
      let selectAttribute ← explode comma texts.s
      let groupingAttr ← explode comma texts.v
      let fVect ← explode comma texts.f
      return ⟨selectAttribute, texts.whereText, texts.noGroupingVars, groupingAttr, fVect,
        texts.suchThat.pointer, texts.having⟩) := by
  cases front with
  | file content =>
      obtain ⟨sections, cut, rest⟩ := bind_eq_ok_iff.mp read
      cases rest
      simp only [parse, parseFileInput, cut, explode_newline]
      rfl
  | prompt session =>
      obtain ⟨answers, answered, rest⟩ := bind_eq_ok_iff.mp read
      cases rest
      simp only [parse, parseUserInput, answered]
      rfl

theorem parse_eq_ok
    (long : ∀ text ∈ [texts.s, texts.v, texts.f], endsShort text = false) :
    front.parse = .ok texts.query := by
  simp only [List.forall_mem_cons, List.not_mem_nil, false_imp_iff, implies_true, and_true] at long
  obtain ⟨s, v, f⟩ := long
  rw [parse_eq_explode read, explode_comma_eq s, explode_comma_eq v, explode_comma_eq f]
  rfl

/-- A list with a short last entry ends the program with an exception. -/
theorem parse_eq_thrown
    (short : ¬∀ text ∈ [texts.s, texts.v, texts.f], endsShort text = false) :
    front.parse = .error .thrown := by
  rw [parse_eq_explode read]
  rcases explode_comma_cases texts.s with ⟨-, throws⟩ | ⟨sLong, select, ofS⟩
  · rw [throws]
    rfl
  rcases explode_comma_cases texts.v with ⟨-, throws⟩ | ⟨vLong, grouping, ofV⟩
  · rw [ofS, throws]
    rfl
  rcases explode_comma_cases texts.f with ⟨-, throws⟩ | ⟨fLong, fVect, ofF⟩
  · rw [ofS, ofV, throws]
    rfl
  · exact absurd (by simp [sLong, vLong, fLong]) short

end FrontEnd

/-- A front end that cannot read its texts fails as a whole. -/
theorem FrontEnd.parse_eq_error
    {front : FrontEnd}
    {failure : Failure}
    (failed : front.texts = .error failure) :
    front.parse = .error failure := by
  cases front with
  | file content =>
      rw [texts] at failed
      rw [parse, parseFileInput]
      cases cut : fileSections (readFromFile content) with
      | error reason =>
          rw [cut] at failed
          cases failed
          rfl
      | ok sections =>
          rw [cut] at failed
          cases failed
  | prompt session =>
      rw [texts] at failed
      rw [parse, parseUserInput]
      cases answered : readAnswers session with
      | error reason =>
          rw [answered] at failed
          cases failed
          rfl
      | ok answers =>
          rw [answered] at failed
          cases failed

/-! ## Reading never uses a pointer -/

theorem substr_ne_null (subject : Text) (index count : Nat) :
    substr subject index count ≠ .error .nullPointer := by
  rw [substr]
  split_ifs
  · simp
  · simp

theorem sectionText_ne_null (data header : Text) (start stop : Int) :
    sectionText data header start stop ≠ .error .nullPointer := by
  rw [sectionText]
  apply substr_ne_null

theorem svcText_ne_null (data : Text) (noGroupingVars start stop : Int) :
    svcText data noGroupingVars start stop ≠ .error .nullPointer := by
  rw [svcText]
  split_ifs
  · apply sectionText_ne_null
  · simp

theorem fileSections_ne_null (data : Text) : fileSections data ≠ .error .nullPointer := by
  simp [fileSections, bind_eq_null_iff, sectionText_ne_null, substr_ne_null, svcText_ne_null,
    pure, Except.pure]

theorem readAnswers_ne_null (session : Text) : readAnswers session ≠ .error .nullPointer := by
  simp [readAnswers, bind_eq_null_iff, orThrow_ne_null, pure, Except.pure]

theorem FrontEnd.texts_ne_null (front : FrontEnd) : front.texts ≠ .error .nullPointer := by
  cases front with
  | file content =>
      simp [texts, bind_eq_null_iff, fileSections_ne_null, pure, Except.pure]
  | prompt session =>
      simp [texts, bind_eq_null_iff, readAnswers_ne_null, pure, Except.pure]

/-! ## Empty sections -/

/-- The first empty section that is reached: the F-vector, then the select list,
the grouping attributes and, with grouping variables, the such-that section.
Before each of them nothing throws. -/
inductive EmptyReached
    (columns : List Column)
    (stale : Option Text)
    (n : Nat)
    (texts : InputTexts) : Prop where
  | f (empty : texts.f = [])
  | s
      (aggregates : (getAllAggregates (listEntries texts.f)).isSome)
      (empty : texts.s = [])
  | v
      (aggregates : (getAllAggregates (listEntries texts.f)).isSome)
      (select : (getSelectAggregates (listEntries texts.s)).isSome)
      (conditions : (getConditions texts.suchThat.lines).isSome)
      (empty : texts.v = [])
  | suchThat
      (aggregates : (getAllAggregates (listEntries texts.f)).isSome)
      (select : (getSelectAggregates (listEntries texts.s)).isSome)
      (helpers : (helpersOver stale n (listEntries texts.v) columns).isSome)
      (inRange : ∀ aggregate ∈ (getAllAggregates (listEntries texts.f)).getD [],
        0 ≤ aggregate.group ∧ aggregate.group ≤ n)
      (positive : 0 < n)
      (empty : texts.suchThat.lines = [])

/-- `getConditions` returns exactly on lines that can be read. -/
theorem conditionsPointer_returns_iff (cond : Option (List Text)) :
    (∃ conditions, conditionsPointer cond = .ok conditions) ↔
      (getConditions (cond.getD [])).isSome := by
  match cond with
  | none => exact ⟨fun _ => rfl, fun _ => ⟨none, rfl⟩⟩
  | some [] => exact ⟨fun _ => rfl, fun _ => ⟨none, rfl⟩⟩
  | some (line :: lines) =>
      rw [conditionsPointer, Option.getD_some]
      cases getConditions (line :: lines) with
      | none => simp [orThrow, Functor.map, Except.map]
      | some conditions => simp [orThrow, Functor.map, Except.map]

theorem nullUsed_query_iff
    (columns : List Column)
    (stale : Option Text)
    {n : Nat}
    {texts : InputTexts}
    (number : texts.noGroupingVars = n) :
    NullUsed columns stale texts.query ↔ EmptyReached columns stale n texts := by
  have count : texts.query.noGroupingVars.toNat = n := by
    rw [InputTexts.query, number, Int.toNat_natCast]
  have fEntries : texts.query.fVect.getD [] = listEntries texts.f := getD_listPointer texts.f
  have sEntries : texts.query.selectAttribute.getD [] = listEntries texts.s :=
    getD_listPointer texts.s
  have vEntries : texts.query.groupingAttr.getD [] = listEntries texts.v :=
    getD_listPointer texts.v
  have lines : texts.query.selectCondVect.getD [] = texts.suchThat.lines :=
    texts.suchThat.getD_pointer
  constructor
  · intro used
    cases used with
    | fVect null => exact .f ((listPointer_eq_none_iff texts.f).mp null)
    | selectAttribute aggregates null =>
        rw [fEntries] at aggregates
        exact .s (by rw [aggregates]; rfl) ((listPointer_eq_none_iff texts.s).mp null)
    | groupingAttr aggregates select readable null =>
        rw [fEntries] at aggregates
        rw [sEntries] at select
        have conditions := (conditionsPointer_returns_iff _).mp ⟨_, readable⟩
        rw [lines] at conditions
        exact .v (by rw [aggregates]; rfl) (by rw [select]; rfl) conditions
          ((listPointer_eq_none_iff texts.v).mp null)
    | selectConditions aggregates select helped inRange positive null =>
        rw [fEntries] at aggregates
        rw [sEntries] at select
        rw [vEntries, count] at helped
        rw [conditionsPointer_eq_ok_none_iff, lines] at null
        rw [count] at inRange positive
        exact .suchThat (by rw [aggregates]; rfl) (by rw [select]; rfl) (by rw [helped]; rfl)
          (by rw [aggregates]; exact inRange) positive null
  · intro reached
    cases reached with
    | f empty => exact .fVect ((listPointer_eq_none_iff texts.f).mpr empty)
    | s aggregates empty =>
        obtain ⟨all, isAll⟩ := Option.isSome_iff_exists.mp aggregates
        rw [← fEntries] at isAll
        exact .selectAttribute isAll ((listPointer_eq_none_iff texts.s).mpr empty)
    | v aggregates select conditions empty =>
        obtain ⟨all, isAll⟩ := Option.isSome_iff_exists.mp aggregates
        obtain ⟨selected, isSelected⟩ := Option.isSome_iff_exists.mp select
        rw [← lines] at conditions
        obtain ⟨pointer, readable⟩ := (conditionsPointer_returns_iff _).mpr conditions
        rw [← fEntries] at isAll
        rw [← sEntries] at isSelected
        exact .groupingAttr isAll isSelected readable ((listPointer_eq_none_iff texts.v).mpr empty)
    | suchThat aggregates select helpers inRange positive empty =>
        obtain ⟨all, isAll⟩ := Option.isSome_iff_exists.mp aggregates
        obtain ⟨selected, isSelected⟩ := Option.isSome_iff_exists.mp select
        obtain ⟨text, helped⟩ := Option.isSome_iff_exists.mp helpers
        rw [isAll, Option.getD_some] at inRange
        rw [← fEntries] at isAll
        rw [← sEntries] at isSelected
        rw [← vEntries, ← count] at helped
        rw [← count] at inRange positive
        rw [← lines] at empty
        exact .selectConditions isAll isSelected helped inRange positive
          ((conditionsPointer_eq_ok_none_iff _).mpr empty)

/-- A query that selects a plain column only has an empty F-vector. -/
def plainSession : Text := "cust\nyear = 1997\n0\ncust\n\n\n"

end MfQuery
