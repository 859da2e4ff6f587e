import MfQuery.Lib.Renaming
import MfQuery.Program.Line

/-!
# Queries in upper and lower case

The same query can be written with lower-case and with upper-case function
names. Both are read into the same parts, up to the spelling of the functions;
texts that are generated from them are compared up to that spelling.
-/

namespace MfQuery

open Text

/-! ## Function names -/

/-- The aggregate functions. -/
inductive Func
  | sum
  | count
  | avg
  | min
  | max
  deriving DecidableEq, Repr

/-- How function names are written. -/
inductive LetterCase
  | lower
  | upper
  deriving DecidableEq, Repr

/-- The name of a function. -/
def Func.text : LetterCase → Func → Text
  | .lower, sum => "sum"
  | .lower, count => "count"
  | .lower, avg => "avg"
  | .lower, min => "min"
  | .lower, max => "max"
  | .upper, sum => "SUM"
  | .upper, count => "COUNT"
  | .upper, avg => "AVG"
  | .upper, min => "MIN"
  | .upper, max => "MAX"

theorem Func.underscore_notMem_text
    (letterCase : LetterCase)
    (func : Func) :
    '_' ∉ func.text letterCase := by
  cases letterCase <;> cases func <;> decide

theorem Func.text_ne_nil
    (letterCase : LetterCase)
    (func : Func) :
    func.text letterCase ≠ [] := by
  cases letterCase <;> cases func <;> decide

/-- No lower-case function name in front of an underscore. -/
def noFunction (text : Text) : Bool :=
  [Func.sum, .count, .avg, .min, .max].all fun func =>
    !contains text (func.text .lower ++ ['_'])

/-- The field of an aggregate, in lower and in upper case. -/
def fieldSpelling : Spelling Char (Func × Text) where
  before := fun field => field.1.text .lower ++ '_' :: field.2
  after := fun field => field.1.text .upper ++ '_' :: field.2
  plain := fun text => noFunction text = true
  length_eq := by
    rintro ⟨func, column⟩
    cases func <;> simp [Func.text]

/-- Equal up to the spelling of the aggregate fields. -/
abbrev Respelled (lower upper : Text) : Prop := fieldSpelling.Renamed lower upper

theorem noFunction_of_plain
    {text : Text}
    (plain : '_' ∉ text) :
    noFunction text = true := by
  simp only [noFunction, List.all_eq_true, Bool.not_eq_true']
  intro func _
  exact contains_eq_false_of_mem (by simp) plain

theorem Respelled.closed
    {text : Text}
    (closed : noFunction text = true) :
    Respelled text text :=
  .of_plain closed

theorem Respelled.plain
    {text : Text}
    (plain : '_' ∉ text) :
    Respelled text text :=
  .of_plain (noFunction_of_plain plain)

theorem Respelled.numeral (value : Nat) : Respelled (numeral value) (numeral value) := by
  apply Respelled.plain
  intro underscore
  exact absurd (isDigit_of_mem_numeral underscore) (by decide)

/-! ## Written aggregates -/

/-- An aggregate as written in a query, with or without its group. -/
structure AggregateTerm where
  label : Option Nat
  func : Func
  column : Text
  deriving DecidableEq, Repr

namespace AggregateTerm

/-- Its group. -/
def group (term : AggregateTerm) : Nat := term.label.getD 0

/-- The group in front of it. -/
def labelText (term : AggregateTerm) : Text :=
  match term.label with
  | none => []
  | some group => numeral group ++ ['_']

/-- The aggregate as written. -/
def text (letterCase : LetterCase) (term : AggregateTerm) : Text :=
  term.labelText ++ (term.func.text letterCase ++ '_' :: term.column)

/-- The aggregate the constructor reads. -/
def aggregate (letterCase : LetterCase) (term : AggregateTerm) : Aggregate :=
  ⟨term.group, term.func.text letterCase, term.column⟩

/-- An aggregate over a column of the table, of a group up to `n`. -/
structure Valid (columns : List Column) (n : Nat) (term : AggregateTerm) : Prop where
  column_mem : ∃ column ∈ columns, column.name = term.column
  group_le : term.group ≤ n

variable {columns : List Column} {n : Nat} {term : AggregateTerm}

theorem underscore_mem_text (letterCase : LetterCase) (term : AggregateTerm) :
    '_' ∈ term.text letterCase := by
  simp [text]

theorem isAggregate_text (letterCase : LetterCase) (term : AggregateTerm) :
    Aggregate.isAggregate (term.text letterCase) = true :=
  (Aggregate.isAggregate_eq_true _).mpr (underscore_mem_text letterCase term)

section Reading

variable (identifier : isIdent term.column = true) (letterCase : LetterCase)
include identifier

/-- The constructor reads a written aggregate. -/
theorem ofText_text
    (columnPlain : '_' ∉ term.column)
    (small : term.group < 2 ^ 31) :
    Aggregate.ofText (term.text letterCase) = some (term.aggregate letterCase) := by
  have visible := exists_visible_of_isIdent identifier
  have funcPlain := term.func.underscore_notMem_text letterCase
  have funcPresent := term.func.text_ne_nil letterCase
  cases written : term.label with
  | none =>
      have isGroup : term.group = 0 := by simp [group, written]
      have read := Aggregate.ofText_pair funcPresent funcPlain columnPlain visible
      rw [aggregate, isGroup, text, labelText, written]
      exact read
  | some label =>
      have isGroup : term.group = label := by simp [group, written]
      have labelPlain : '_' ∉ numeral label := notMem_numeral (by decide) _
      have read := Aggregate.ofText_triple (numeral_ne_nil label) labelPlain funcPresent funcPlain
        columnPlain visible
      rw [atoi_numeral (isGroup ▸ small)] at read
      rw [aggregate, isGroup, text, labelText, written, List.append_assoc]
      exact read

/-- Characters of a written aggregate are those of identifiers. -/
theorem identRest_of_mem_text
    {character : Char}
    (member : character ∈ term.text letterCase) :
    identRest character = true := by
  have inFunc : ∀ other ∈ term.func.text letterCase, identRest other = true := by
    rw [← List.all_eq_true]
    cases letterCase <;> cases term.func <;> decide
  simp only [AggregateTerm.text, List.mem_append, List.mem_cons] at member
  rcases member with inLabel | inside | rfl | inColumn
  · unfold AggregateTerm.labelText at inLabel
    cases written : term.label with
    | none => simp [written] at inLabel
    | some label =>
        rw [written] at inLabel
        rcases List.mem_append.mp inLabel with digit | underscore
        · simp [identRest, Char.isAlphanum, isDigit_of_mem_numeral digit]
        · rw [List.mem_singleton.mp underscore]
          decide
  · exact inFunc character inside
  · decide
  · exact identRest_of_mem identifier inColumn

/-- A character foreign to identifiers is in no written aggregate. -/
theorem notMem_text
    {character : Char}
    (foreign : identRest character = false) :
    character ∉ term.text letterCase := by
  intro member
  rw [identRest_of_mem_text identifier letterCase member] at foreign
  exact Bool.noConfusion foreign

end Reading

end AggregateTerm

/-! ## Written queries -/

/-- An entry of the select list. -/
inductive SelectEntry
  | column (name : Text)
  | aggregate (term : AggregateTerm)
  deriving DecidableEq, Repr

/-- The entry as written. -/
def SelectEntry.text (letterCase : LetterCase) : SelectEntry → Text
  | column name => name
  | aggregate term => term.text letterCase

/-- The column of a plain entry. -/
def SelectEntry.column? : SelectEntry → Option Text
  | column name => some name
  | aggregate _ => none

/-- The aggregate of the other entries. -/
def SelectEntry.term? : SelectEntry → Option AggregateTerm
  | column _ => none
  | aggregate term => some term

/-- The right-hand side of an atom: an aggregate, or a text that names none. -/
inductive AtomOperand
  | other (text : Text)
  | aggregate (term : AggregateTerm)
  deriving DecidableEq, Repr

/-- The operand as written. -/
def AtomOperand.text (letterCase : LetterCase) : AtomOperand → Text
  | other text => text
  | aggregate term => term.text letterCase

/-- An atom of a such-that line. -/
structure CasedAtom where
  group : Nat
  column : Text
  operator : CmpOp
  value : AtomOperand
  deriving DecidableEq, Repr

namespace CasedAtom

/-- The atom as written. -/
def text (letterCase : LetterCase) (atom : CasedAtom) : Text :=
  atomText atom.group atom.column atom.operator (atom.value.text letterCase)

/-- The condition the constructor reads from it. -/
def condition (letterCase : LetterCase) (atom : CasedAtom) : Condition :=
  ⟨atom.group, atom.column, atom.operator.exp, doubleQuotes (atom.value.text letterCase)⟩

end CasedAtom

/-- A such-that line. -/
structure CasedLine where
  first : CasedAtom
  rest : List (Connective × CasedAtom)
  deriving DecidableEq, Repr

namespace CasedLine

/-- The atoms of a line. -/
def atoms (line : CasedLine) : List CasedAtom := line.first :: line.rest.map Prod.snd

/-- The line as written. -/
def text (letterCase : LetterCase) (line : CasedLine) : Text :=
  joinWith ' ' (linePieces (CasedAtom.text letterCase) line.first line.rest)

/-- The conditions the constructor reads from it. -/
def conditions (letterCase : LetterCase) (line : CasedLine) : Conditions :=
  ⟨line.atoms.map (CasedAtom.condition letterCase), line.rest.map fun entry => entry.1.text⟩

end CasedLine

/-- A token of the HAVING condition. -/
inductive HavingEntry
  | other (token : Text)
  | aggregate (term : AggregateTerm)
  deriving DecidableEq, Repr

/-- The token as written. -/
def HavingEntry.text (letterCase : LetterCase) : HavingEntry → Text
  | other token => token
  | aggregate term => term.text letterCase

/-- A query whose function names can be written in either case. -/
structure CasedQuery where
  columns : List Column
  select : List SelectEntry
  n : Nat
  groupingAttr : List Text
  fVect : List AggregateTerm
  lines : List CasedLine
  having : List HavingEntry
  emf : Bool

namespace CasedQuery

/-- The query as written. -/
def query (letterCase : LetterCase) (cased : CasedQuery) : Query where
  columns := cased.columns
  selectAttribute := cased.select.map (SelectEntry.text letterCase)
  noGroupingVars := cased.n
  groupingAttr := cased.groupingAttr
  fVect := cased.fVect.map (AggregateTerm.text letterCase)
  selectCondVect := cased.lines.map (CasedLine.text letterCase)
  having := joinWith ' ' (cased.having.map (HavingEntry.text letterCase))
  emf := cased.emf

end CasedQuery

/-- What a right-hand side may be: an aggregate of the query, or a text without
spaces that spells no function name and that the translation can read. -/
def AtomOperand.Valid (columns : List Column) (n : Nat) (operator : CmpOp) : AtomOperand → Prop
  | other text => ' ' ∉ text ∧ operator.Separates text ∧ noFunction (doubleQuotes text) = true ∧
      ('_' ∈ doubleQuotes text → (Aggregate.ofText (doubleQuotes text)).isSome = true)
  | aggregate term => term.Valid columns n

/-- An atom over a column of the table. -/
structure CasedAtom.Valid (columns : List Column) (n : Nat) (atom : CasedAtom) : Prop where
  group_lt : atom.group < 2 ^ 31
  column_mem : ∃ column ∈ columns, column.name = atom.column
  value : atom.value.Valid columns n atom.operator

/-- A token of the HAVING condition: an aggregate, or a visible text without
spaces and underscores. -/
def HavingEntry.Valid (columns : List Column) (n : Nat) : HavingEntry → Prop
  | other token => ' ' ∉ token ∧ '_' ∉ token ∧ ∃ character ∈ token, isBlank character = false
  | aggregate term => term.Valid columns n

/-- An entry of the select list: a column of the table, or an aggregate. -/
def SelectEntry.Valid (columns : List Column) (n : Nat) : SelectEntry → Prop
  | column name => ∃ column ∈ columns, column.name = name
  | aggregate term => term.Valid columns n

/-- A valid query over string and integer columns whose names are identifiers
without underscores. -/
structure CasedQuery.Valid (cased : CasedQuery) : Prop where
  named : NamedColumns cased.columns
  plain : ∀ column ∈ cased.columns, '_' ∉ column.name
  types : ∀ column ∈ cased.columns, column.type.getOutCppType = "string".toList ∨
    column.type.getOutCppType = "int64_t".toList
  small : cased.n < 2 ^ 31
  select : ∀ entry ∈ cased.select, entry.Valid cased.columns cased.n
  groupingAttr : ∀ attr ∈ cased.groupingAttr, ∃ column ∈ cased.columns, column.name = attr
  fVect : ∀ term ∈ cased.fVect, term.Valid cased.columns cased.n
  lines : ∀ line ∈ cased.lines, ∀ atom ∈ line.atoms, atom.Valid cased.columns cased.n
  length_lines : cased.lines.length = cased.n
  having : ∀ entry ∈ cased.having, entry.Valid cased.columns cased.n

/-! ## Reading a written query -/

namespace CasedQuery

/-- The plain columns of the select list. -/
def plainColumns (cased : CasedQuery) : List Text :=
  cased.select.filterMap SelectEntry.column?

/-- The aggregates of the select list. -/
def selectTerms (cased : CasedQuery) : List AggregateTerm :=
  cased.select.filterMap SelectEntry.term?

/-- The scan generator of the written query. -/
def generator (letterCase : LetterCase) (cased : CasedQuery) : ScanGenerator where
  noGroupingVars := cased.n
  columns := cased.columns
  selectColumns := cased.plainColumns
  selectAggregates := cased.selectTerms.map (AggregateTerm.aggregate letterCase)
  allAggregates := cased.fVect.map (AggregateTerm.aggregate letterCase)
  selectConditions := cased.lines.map (CasedLine.conditions letterCase)
  having := joinWith ' ' (cased.having.map (HavingEntry.text letterCase))
  groupingAttr := cased.groupingAttr
  emf := cased.emf

end CasedQuery

section Reading

variable {cased : CasedQuery} (valid : cased.Valid) (letterCase : LetterCase)
include valid

/-- A name of the table has no underscore. -/
theorem CasedQuery.Valid.underscore_notMem
    {name : Text}
    (inTable : ∃ column ∈ cased.columns, column.name = name) :
    '_' ∉ name := by
  obtain ⟨column, member, rfl⟩ := inTable
  exact valid.plain column member

theorem CasedQuery.Valid.isIdent_name
    {name : Text}
    (inTable : ∃ column ∈ cased.columns, column.name = name) :
    isIdent name = true := by
  obtain ⟨column, member, rfl⟩ := inTable
  exact isIdent_of_isName (valid.named column member)

theorem CasedQuery.Valid.ofText_term
    {term : AggregateTerm}
    (termValid : term.Valid cased.columns cased.n) :
    Aggregate.ofText (term.text letterCase) = some (term.aggregate letterCase) :=
  term.ofText_text (valid.isIdent_name termValid.column_mem) letterCase
    (valid.underscore_notMem termValid.column_mem) (termValid.group_le.trans_lt valid.small)

theorem CasedQuery.Valid.isAggregate_eq_false
    {name : Text}
    (inTable : ∃ column ∈ cased.columns, column.name = name) :
    Aggregate.isAggregate name = false := by
  rw [Bool.eq_false_iff]
  intro isAggregate
  exact valid.underscore_notMem inTable ((Aggregate.isAggregate_eq_true _).mp isAggregate)

/-- Plain entries and aggregates are told apart. -/
theorem CasedQuery.Valid.getSelect_eq
    (select : List SelectEntry)
    (entries : ∀ entry ∈ select, entry.Valid cased.columns cased.n) :
    getSelectColumns (select.map (SelectEntry.text letterCase)) =
        select.filterMap SelectEntry.column? ∧
      getSelectAggregates (select.map (SelectEntry.text letterCase)) =
        some ((select.filterMap SelectEntry.term?).map (AggregateTerm.aggregate letterCase)) := by
  rw [getSelectColumns, getSelectAggregates]
  induction select with
  | nil => exact ⟨rfl, rfl⟩
  | cons entry select inductionHypothesis =>
      obtain ⟨columns, aggregates⟩ := inductionHypothesis fun other member =>
        entries other (List.mem_cons_of_mem _ member)
      have here := entries entry (List.mem_cons_self ..)
      cases entry with
      | column name =>
          have plain := valid.isAggregate_eq_false here
          simp [SelectEntry.text, SelectEntry.column?, SelectEntry.term?, List.filterMap_cons, plain,
            columns, aggregates]
      | aggregate term =>
          have read := valid.ofText_term letterCase here
          simp [SelectEntry.text, SelectEntry.column?, SelectEntry.term?, List.filterMap_cons,
            AggregateTerm.isAggregate_text, read, columns, aggregates]

theorem CasedQuery.Valid.getAllAggregates_eq :
    getAllAggregates (cased.fVect.map (AggregateTerm.text letterCase)) =
      some (cased.fVect.map (AggregateTerm.aggregate letterCase)) := by
  rw [getAllAggregates, List.mapM_map]
  apply mapM_eq_some_map
  intro term member
  exact valid.ofText_term letterCase (valid.fVect term member)

/-- A character foreign to identifiers is in no written aggregate. -/
theorem CasedQuery.Valid.notMem_text
    {term : AggregateTerm}
    (termValid : term.Valid cased.columns cased.n)
    {character : Char}
    (foreign : identRest character = false) :
    character ∉ term.text letterCase :=
  term.notMem_text (valid.isIdent_name termValid.column_mem) letterCase foreign

theorem CasedQuery.Valid.doubleQuotes_text
    {term : AggregateTerm}
    (termValid : term.Valid cased.columns cased.n) :
    doubleQuotes (term.text letterCase) = term.text letterCase :=
  doubleQuotes_of_notMem (valid.notMem_text letterCase termValid (by decide))

section Atoms

variable {atom : CasedAtom} (atomValid : atom.Valid cased.columns cased.n)
include atomValid

theorem CasedAtom.Valid.space_notMem_text : ' ' ∉ atom.text letterCase := by
  have inColumn : ' ' ∉ atom.column :=
    not_mem_of_isIdent (valid.isIdent_name atomValid.column_mem) (by decide)
  have inOperator : ' ' ∉ atom.operator.text := by cases atom.operator <;> decide
  have inGroup : ' ' ∉ numeral atom.group := notMem_numeral (by decide) _
  have formed := atomValid.value
  have inValue : ' ' ∉ atom.value.text letterCase := by
    cases shape : atom.value with
    | other text =>
        rw [shape] at formed
        exact formed.1
    | aggregate term =>
        rw [shape] at formed
        exact valid.notMem_text letterCase formed (by decide)
  simp only [CasedAtom.text, atomText, List.mem_append, List.mem_cons, not_or]
  exact ⟨inGroup, by decide, ⟨inColumn, inOperator⟩, inValue⟩

theorem CasedAtom.Valid.ofText_text :
    Condition.ofText (atom.text letterCase) = some (atom.condition letterCase) := by
  have free := isOpStart_eq_false (valid.isIdent_name atomValid.column_mem)
  apply Condition.ofText_atomText atomValid.group_lt free
  have formed := atomValid.value
  cases shape : atom.value with
  | other text =>
      rw [shape] at formed
      exact formed.2.1
  | aggregate term =>
      rw [shape] at formed
      have underscore := term.underscore_mem_text letterCase
      obtain ⟨first, rest, written⟩ := List.exists_cons_of_ne_nil (List.ne_nil_of_mem underscore)
      have inside := term.identRest_of_mem_text (valid.isIdent_name formed.column_mem) letterCase
        (written ▸ List.mem_cons_self ..)
      apply separates_of_head
      refine ⟨first, rest, written, ?_, ?_⟩
      · rintro rfl
        exact absurd inside (by decide)
      · rintro rfl
        exact absurd inside (by decide)

end Atoms

theorem CasedQuery.Valid.getConditions_eq :
    getConditions (cased.lines.map (CasedLine.text letterCase)) =
      some (cased.lines.map (CasedLine.conditions letterCase)) := by
  rw [getConditions, List.mapM_map]
  apply mapM_eq_some_map
  intro line member
  have atoms := valid.lines line member
  apply Conditions.ofText_linePieces
  · intro atom inside
    exact (atoms atom inside).space_notMem_text valid letterCase
  · intro atom _
    simp [CasedAtom.text, atomText]
  · intro atom inside
    exact (atoms atom inside).ofText_text valid letterCase

/-- A written query is read into its generator. -/
theorem CasedQuery.Valid.scanGenerator_eq :
    (cased.query letterCase).scanGenerator = some (cased.generator letterCase) := by
  obtain ⟨columns, aggregates⟩ := valid.getSelect_eq letterCase cased.select valid.select
  rw [Query.scanGenerator_eq_some_iff]
  refine ⟨_, _, _, valid.getAllAggregates_eq letterCase, aggregates,
    valid.getConditions_eq letterCase, ?_⟩
  simp only [CasedQuery.generator, CasedQuery.query, columns]
  rfl

end Reading

end MfQuery
