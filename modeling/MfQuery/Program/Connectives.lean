import MfQuery.Lib.Ladder
import MfQuery.Program.AggregateGuard
import MfQuery.Program.Line

/-!
# Connectives in emitted guards

The guard of a line writes its connectives between the atoms' comparisons and
leaves their grouping to C++, where `xor` is the bitwise operator and binds
tighter than `and`. In SQL `and` binds tighter than `xor`. A line therefore
keeps its meaning exactly when no stretch of it between two `or`s mixes the
two.
-/

namespace MfQuery

open Text Precedence

/-! ## Lines over all kinds of atoms -/

/-- An atom of a line compares a column with a literal or a column, or with an
aggregate. -/
inductive LineAtom
  | plain (atom : Atom)
  | aggregate (atom : AggregateAtom)
  deriving DecidableEq, Repr

namespace LineAtom

/-- The atom as written in the query. -/
def text : LineAtom → Text
  | plain atom => atom.text
  | aggregate atom => atom.text

/-- The condition the constructor reads from it. -/
def condition : LineAtom → Condition
  | plain atom => atom.condition
  | aggregate atom => atom.condition

/-- The expression read from its translation: the emitted comparison. -/
def expr (groupingAttr : List Text) : LineAtom → Cpp.Expr
  | plain atom => atom.expr
  | aggregate atom => atom.expr groupingAttr

/-- An atom over the columns of the table, without spaces. -/
def WellFormed (columns : List Column) : LineAtom → Prop
  | plain atom => atom.WellFormed columns ∧ atom.value.Spaceless
  | aggregate atom => atom.WellFormed columns

section Written

variable {columns : List Column} {atom : LineAtom}

theorem space_notMem_text
    (named : NamedColumns columns)
    (wellFormed : atom.WellFormed columns) :
    ' ' ∉ atom.text := by
  cases atom with
  | plain atom => exact atom.space_notMem_text named wellFormed.1 wellFormed.2
  | aggregate atom =>
      have isName := AggregateAtom.isName_column named wellFormed
      have inColumn : ' ' ∉ atom.column :=
        not_mem_of_isIdent (isIdent_of_isName isName) (by decide)
      have inOperator : ' ' ∉ atom.operator.text := by cases atom.operator <;> decide
      have inGroup : ' ' ∉ numeral atom.group := notMem_numeral (by decide) _
      have inLabel : ' ' ∉ atom.label := AggregateAtom.WellFormed.notMem_label wellFormed (by decide)
      simp only [text, AggregateAtom.text, atomText, List.mem_append, List.mem_cons, not_or]
      exact ⟨inGroup, by decide, ⟨inColumn, inOperator⟩, inLabel⟩

theorem dot_mem_text (atom : LineAtom) : '.' ∈ atom.text := by
  cases atom with
  | plain atom => exact atom.dot_mem_text
  | aggregate atom => simp [text, AggregateAtom.text, atomText]

theorem ofText_text
    (named : NamedColumns columns)
    (wellFormed : atom.WellFormed columns) :
    Condition.ofText atom.text = some atom.condition := by
  cases atom with
  | plain atom => exact atom.ofText_text named wellFormed.1
  | aggregate atom => exact AggregateAtom.ofText_text named wellFormed

theorem toCpp_writes
    (named : NamedColumns columns)
    (wellFormed : atom.WellFormed columns)
    {groupingAttr : List Text}
    (namedAttr : ∀ attr ∈ groupingAttr, Cpp.isName attr = true) :
    ∃ guard, atom.condition.toCpp "(*it)" "(*xt)" groupingAttr columns = some guard ∧
      Cpp.Writes guard (atom.expr groupingAttr) := by
  cases atom with
  | plain atom => exact atom.toCpp_writes named wellFormed.1 groupingAttr
  | aggregate atom => exact AggregateAtom.toCpp_writes named wellFormed namedAttr

end Written

end LineAtom

/-! ## Values of lines -/

/-- The value of a line whose atoms have the given truth values, grouped as
`binds` says. -/
def lineValue
    (binds : Cpp.BinOp → Cpp.BinOp → Bool)
    (first : Bool)
    (rest : List (Connective × Bool)) : Bool :=
  chain connectiveNode binds [] first (rest.map fun entry => (entry.1.operator, entry.2))

/-- One more connective and truth value, where `xor` binds tightest. -/
def cppStep (running : Running Bool) : Connective × Bool → Running Bool
  | (.xor, truth) => ⟨running.loose, running.middle, running.tight != truth⟩
  | (.and, truth) => ⟨running.loose, running.middle && running.tight, truth⟩
  | (.or, truth) => ⟨running.loose || running.middle && running.tight, true, truth⟩

/-- The value of the stretches read so far, where `xor` binds tightest. -/
def cppTotal (running : Running Bool) : Bool :=
  running.loose || running.middle && running.tight

/-- One more connective and truth value, where `and` binds tightest. -/
def sqlStep (running : Running Bool) : Connective × Bool → Running Bool
  | (.and, truth) => ⟨running.loose, running.middle, running.tight && truth⟩
  | (.xor, truth) => ⟨running.loose, running.middle != running.tight, truth⟩
  | (.or, truth) => ⟨running.loose || running.middle != running.tight, false, truth⟩

/-- The value of the stretches read so far, where `and` binds tightest. -/
def sqlTotal (running : Running Bool) : Bool :=
  running.loose || running.middle != running.tight

/-- Which connective stands on which level, and with which unit on the middle
one; `or` is the loosest. -/
structure Levels where
  connective : Level → Connective
  level : Connective → Level
  unit : Bool
  inverse : ∀ word, connective (level word) = word
  loosest : connective .loose = .or
  leftUnit : ∀ right, connectiveNode (connective .middle).operator unit right = right

/-- The levels of C++. -/
def cppLevels : Levels where
  connective
    | .loose => .or
    | .middle => .and
    | .tight => .xor
  level
    | .or => .loose
    | .and => .middle
    | .xor => .tight
  unit := true
  inverse word := by cases word <;> rfl
  loosest := rfl
  leftUnit right := by cases right <;> rfl

/-- The levels of SQL. -/
def sqlLevels : Levels where
  connective
    | .loose => .or
    | .middle => .xor
    | .tight => .and
  level
    | .or => .loose
    | .xor => .middle
    | .and => .tight
  unit := false
  inverse word := by cases word <;> rfl
  loosest := rfl
  leftUnit right := by cases right <;> rfl

namespace Levels

/-- The operator of a level. -/
def operator (levels : Levels) (level : Level) : Cpp.BinOp := (levels.connective level).operator

/-- One more connective and truth value. -/
def step (levels : Levels) (running : Running Bool) (entry : Connective × Bool) : Running Bool :=
  running.step (fun level => connectiveNode (levels.operator level)) levels.unit
    (levels.level entry.1, entry.2)

/-- The value of the line read so far. -/
def total (levels : Levels) (running : Running Bool) : Bool :=
  running.value fun level => connectiveNode (levels.operator level)

end Levels

/-- A line is a fold over three running values. -/
theorem lineValue_eq_total
    {binds : Cpp.BinOp → Cpp.BinOp → Bool}
    (levels : Levels)
    (ladder : Ladder binds (levels.operator .loose) (levels.operator .middle)
      (levels.operator .tight))
    (first : Bool)
    (rest : List (Connective × Bool)) :
    lineValue binds first rest =
      levels.total (rest.foldl levels.step ⟨false, levels.unit, first⟩) := by
  have looseLeft : ∀ right, connectiveNode (levels.operator .loose) false right = right := by
    intro right
    rw [Levels.operator, levels.loosest]
    exact Bool.false_or right
  have middleLeft : ∀ right,
      connectiveNode (levels.operator .middle) levels.unit right = right := levels.leftUnit
  have running := chain_eq_running ladder looseLeft middleLeft none none none first
    (rest.map fun entry => (levels.level entry.1, entry.2))
  rw [List.map_map, List.foldl_map] at running
  have words : (Prod.map levels.operator id ∘
      fun entry : Connective × Bool => (levels.level entry.1, entry.2)) =
        fun entry => (entry.1.operator, entry.2) := by
    funext entry
    simp [Levels.operator, levels.inverse]
  rw [words] at running
  exact running

/-- A line grouped as C++ groups it. -/
theorem lineValue_cpp
    (first : Bool)
    (rest : List (Connective × Bool)) :
    lineValue Cpp.BinOp.binds first rest =
      cppTotal (rest.foldl cppStep ⟨false, true, first⟩) := by
  have ladder : Ladder Cpp.BinOp.binds .or .and .xor := by constructor <;> rfl
  have step : cppStep = cppLevels.step := by
    funext running ⟨word, truth⟩
    cases word <;> rfl
  rw [step]
  exact lineValue_eq_total cppLevels ladder first rest

/-- A line grouped as SQL groups it. -/
theorem lineValue_sql
    (first : Bool)
    (rest : List (Connective × Bool)) :
    lineValue sqlBinds first rest =
      sqlTotal (rest.foldl sqlStep ⟨false, false, first⟩) := by
  have ladder : Ladder sqlBinds .or .xor .and := by constructor <;> rfl
  have step : sqlStep = sqlLevels.step := by
    funext running ⟨word, truth⟩
    cases word <;> rfl
  rw [step]
  exact lineValue_eq_total sqlLevels ladder first rest

/-! ## Which lines keep their meaning -/

/-- No stretch between two `or`s mixes `and` and `xor`; `seen` is the
connective of the stretch being read. -/
def unmixed : Option Connective → List Connective → Bool
  | _, [] => true
  | _, .or :: words => unmixed none words
  | none, word :: words => unmixed (some word) words
  | some seen, word :: words => decide (word = seen) && unmixed (some seen) words

/-- The running values agree on the stretch read so far: without `xor` the
conjunctions are the same, without `and` the parities are. -/
def Agrees (seen : Option Connective) (cpp sql : Running Bool) : Prop :=
  cpp.loose = sql.loose ∧
    match seen with
    | none => cpp.middle = true ∧ sql.middle = false ∧ cpp.tight = sql.tight
    | some .and => sql.middle = false ∧ sql.tight = (cpp.middle && cpp.tight)
    | some .xor => cpp.middle = true ∧ cpp.tight = (sql.middle != sql.tight)
    | some .or => False

namespace Agrees

variable {seen : Option Connective} {cpp sql : Running Bool}

theorem total_eq (agrees : Agrees seen cpp sql) : cppTotal cpp = sqlTotal sql := by
  obtain ⟨loose, stretch⟩ := agrees
  match seen with
  | none =>
      obtain ⟨cppMiddle, sqlMiddle, tight⟩ := stretch
      simp [cppTotal, sqlTotal, loose, cppMiddle, sqlMiddle, tight]
  | some .and =>
      obtain ⟨sqlMiddle, tight⟩ := stretch
      simp [cppTotal, sqlTotal, loose, sqlMiddle, tight]
  | some .xor =>
      obtain ⟨cppMiddle, tight⟩ := stretch
      simp [cppTotal, sqlTotal, loose, cppMiddle, tight]
  | some .or => exact stretch.elim

theorem step_or
    (agrees : Agrees seen cpp sql)
    (truth : Bool) :
    Agrees none (cppStep cpp (.or, truth)) (sqlStep sql (.or, truth)) :=
  ⟨agrees.total_eq, rfl, rfl, rfl⟩

/-- The first connective of a stretch. -/
theorem step_first
    (agrees : Agrees none cpp sql)
    {word : Connective}
    (notOr : word ≠ .or)
    (truth : Bool) :
    Agrees (some word) (cppStep cpp (word, truth)) (sqlStep sql (word, truth)) := by
  obtain ⟨loose, cppMiddle, sqlMiddle, tight⟩ := agrees
  cases word with
  | and => exact ⟨loose, sqlMiddle, by simp [cppStep, sqlStep, cppMiddle, tight]⟩
  | xor => exact ⟨loose, cppMiddle, by simp [cppStep, sqlStep, sqlMiddle, tight]⟩
  | or => exact (notOr rfl).elim

/-- The same connective once more. -/
theorem step_same
    {word : Connective}
    (agrees : Agrees (some word) cpp sql)
    (truth : Bool) :
    Agrees (some word) (cppStep cpp (word, truth)) (sqlStep sql (word, truth)) := by
  obtain ⟨loose, stretch⟩ := agrees
  cases word with
  | and => exact ⟨loose, stretch.1, by simp [cppStep, sqlStep, stretch.2]⟩
  | xor => exact ⟨loose, stretch.1, by simp [cppStep, sqlStep, stretch.2]⟩
  | or => exact stretch.elim

/-- On an unmixed line the values agree to the end. -/
theorem total_foldl_eq
    {rest : List (Connective × Bool)}
    (agrees : Agrees seen cpp sql)
    (isUnmixed : unmixed seen (rest.map Prod.fst) = true) :
    cppTotal (rest.foldl cppStep cpp) = sqlTotal (rest.foldl sqlStep sql) := by
  induction rest generalizing seen cpp sql with
  | nil => exact agrees.total_eq
  | cons entry rest inductionHypothesis =>
      obtain ⟨word, truth⟩ := entry
      rw [List.foldl_cons, List.foldl_cons]
      by_cases isOr : word = .or
      · subst isOr
        exact inductionHypothesis (agrees.step_or truth) (by simpa [unmixed] using isUnmixed)
      · cases seen with
        | none =>
            refine inductionHypothesis (agrees.step_first isOr truth) ?_
            cases word with
            | or => exact (isOr rfl).elim
            | and => exact isUnmixed
            | xor => exact isUnmixed
        | some seen =>
            have split : word = seen ∧ unmixed (some seen) (rest.map Prod.fst) = true := by
              cases word with
              | or => exact (isOr rfl).elim
              | and => simpa [unmixed] using isUnmixed
              | xor => simpa [unmixed] using isUnmixed
            obtain ⟨rfl, later⟩ := split
            exact inductionHypothesis (agrees.step_same truth) later

end Agrees

/-- The C++ value is false and can be kept so, while the SQL value is true and
can be kept so. -/
def Apart (cpp sql : Running Bool) : Prop :=
  cpp.loose = false ∧
    (sql.loose = true ∧ cpp.tight = false ∨
      sql.middle = true ∧ sql.tight = false ∧ (cpp.middle && cpp.tight) = false ∨
      sql.middle = false ∧ sql.tight = true ∧ cpp.middle = false)

namespace Apart

variable {cpp sql : Running Bool}

theorem totals (apart : Apart cpp sql) : cppTotal cpp = false ∧ sqlTotal sql = true := by
  obtain ⟨loose, ⟨done, tight⟩ | ⟨middle, tight, dead⟩ | ⟨middle, tight, dead⟩⟩ := apart
  · simp [cppTotal, sqlTotal, loose, done, tight]
  · simp [cppTotal, sqlTotal, loose, middle, tight, dead]
  · simp [cppTotal, sqlTotal, loose, middle, tight, dead]

/-- Whatever connective follows, some truth value keeps the values apart: the
conjunction that made the SQL value true is kept true, everything else is
false. -/
theorem step
    (apart : Apart cpp sql)
    (word : Connective) :
    ∃ truth, Apart (cppStep cpp (word, truth)) (sqlStep sql (word, truth)) := by
  obtain ⟨loose, ⟨done, tight⟩ | ⟨middle, tight, dead⟩ | ⟨middle, tight, dead⟩⟩ := apart
  · refine ⟨false, ?_⟩
    cases word <;> simp [Apart, cppStep, sqlStep, loose, done, tight]
  · refine ⟨false, ?_⟩
    cases word <;> simp [Apart, cppStep, sqlStep, loose, middle, tight, dead]
  · refine ⟨decide (word = .and), ?_⟩
    cases word <;> simp [Apart, cppStep, sqlStep, loose, middle, tight, dead]

/-- Values that are apart can be kept apart to the end of the line. -/
theorem exists_rest
    (apart : Apart cpp sql)
    (words : List Connective) :
    ∃ rest : List (Connective × Bool), rest.map Prod.fst = words ∧
      cppTotal (rest.foldl cppStep cpp) ≠ sqlTotal (rest.foldl sqlStep sql) := by
  induction words generalizing cpp sql with
  | nil =>
      refine ⟨[], rfl, ?_⟩
      rw [List.foldl_nil, List.foldl_nil, apart.totals.1, apart.totals.2]
      exact Bool.false_ne_true
  | cons word words inductionHypothesis =>
      obtain ⟨truth, next⟩ := apart.step word
      obtain ⟨rest, rfl, differ⟩ := inductionHypothesis next
      exact ⟨(word, truth) :: rest, rfl, differ⟩

end Apart

/-- A mixed rest of a stretch: the other connective follows, or the line is
mixed behind the next `or`. -/
theorem mixed_cases
    {seen : Connective}
    {words : List Connective}
    (mixed : unmixed (some seen) words = false) :
    (∃ count word later, words = List.replicate count seen ++ word :: later ∧ word ≠ seen ∧
        word ≠ .or) ∨
      ∃ count later, words = List.replicate count seen ++ .or :: later ∧
        unmixed none later = false := by
  induction words with
  | nil => simp [unmixed] at mixed
  | cons word words inductionHypothesis =>
      by_cases isOr : word = .or
      · subst isOr
        exact .inr ⟨0, words, rfl, by simpa [unmixed] using mixed⟩
      · by_cases same : word = seen
        · subst same
          have later : unmixed (some word) words = false := by
            cases word with
            | or => exact (isOr rfl).elim
            | and => simpa [unmixed] using mixed
            | xor => simpa [unmixed] using mixed
          rcases inductionHypothesis later with
            ⟨count, other, rest, rfl, differs, notOr⟩ | ⟨count, rest, rfl, mixedLater⟩
          · exact .inl ⟨count + 1, other, rest, rfl, differs, notOr⟩
          · exact .inr ⟨count + 1, rest, rfl, mixedLater⟩
        · exact .inl ⟨0, word, words, rfl, same, isOr⟩

/-- The values of a line begun with the given running values can differ. -/
def CanDiffer (cpp sql : Running Bool) (words : List Connective) : Prop :=
  ∃ rest : List (Connective × Bool), rest.map Prod.fst = words ∧
    cppTotal (rest.foldl cppStep cpp) ≠ sqlTotal (rest.foldl sqlStep sql)

namespace CanDiffer

variable {cpp sql : Running Bool} {words : List Connective}

theorem cons
    {word : Connective}
    (truth : Bool)
    (later : CanDiffer (cppStep cpp (word, truth)) (sqlStep sql (word, truth)) words) :
    CanDiffer cpp sql (word :: words) := by
  obtain ⟨rest, rfl, differ⟩ := later
  exact ⟨(word, truth) :: rest, rfl, differ⟩

/-- False atoms behind connectives that do not change the running values. -/
theorem replicate
    {word : Connective}
    (cppSame : cppStep cpp (word, false) = cpp)
    (sqlSame : sqlStep sql (word, false) = sql)
    (count : Nat)
    (later : CanDiffer cpp sql words) :
    CanDiffer cpp sql (List.replicate count word ++ words) := by
  induction count with
  | zero => exact later
  | succ count inductionHypothesis =>
      refine CanDiffer.cons false ?_
      rw [cppSame, sqlSame]
      exact inductionHypothesis

end CanDiffer

/-- A mixed line has truth values of its atoms on which the two groupings
differ. -/
theorem exists_canDiffer
    {words : List Connective}
    (mixed : unmixed none words = false) :
    ∃ first, CanDiffer ⟨false, true, first⟩ ⟨false, false, first⟩ words := by
  induction size : words.length using Nat.strong_induction_on generalizing words with
  | _ size inductionHypothesis =>
      subst size
      have behindOr {later : List Connective} (shorter : later.length < words.length)
          (mixedLater : unmixed none later = false) {cpp sql : Running Bool}
          (cppFalse : cppTotal cpp = false) (sqlFalse : sqlTotal sql = false) :
          CanDiffer cpp sql (.or :: later) := by
        obtain ⟨first, differ⟩ := inductionHypothesis _ shorter mixedLater rfl
        refine CanDiffer.cons first ?_
        have cppNext : cppStep cpp (.or, first) = ⟨cppTotal cpp, true, first⟩ := rfl
        have sqlNext : sqlStep sql (.or, first) = ⟨sqlTotal sql, false, first⟩ := rfl
        rw [cppNext, sqlNext, cppFalse, sqlFalse]
        exact differ
      cases words with
      | nil => simp [unmixed] at mixed
      | cons word words =>
          cases word with
          | or => exact ⟨false, behindOr (by simp) (by simpa [unmixed] using mixed) rfl rfl⟩
          | and =>
              -- a false conjunct kills the C++ stretch, the parity behind it is made true
              refine ⟨false, CanDiffer.cons false ?_⟩
              rcases mixed_cases (mixed : unmixed (some .and) words = false) with
                ⟨count, other, later, rfl, differs, notOr⟩ | ⟨count, later, rfl, mixedLater⟩
              · cases other with
                | and => exact (differs rfl).elim
                | or => exact (notOr rfl).elim
                | xor =>
                    refine CanDiffer.replicate rfl rfl count (CanDiffer.cons true ?_)
                    exact Apart.exists_rest ⟨rfl, .inr (.inr ⟨rfl, rfl, rfl⟩)⟩ later
              · exact CanDiffer.replicate rfl rfl count
                  (behindOr (by simp; omega) mixedLater rfl rfl)
          | xor =>
              rcases mixed_cases (mixed : unmixed (some .xor) words = false) with
                ⟨count, other, later, rfl, differs, notOr⟩ | ⟨count, later, rfl, mixedLater⟩
              · cases other with
                | xor => exact (differs rfl).elim
                | or => exact (notOr rfl).elim
                | and =>
                    -- a true first atom survives in SQL, the false conjunct kills it in C++
                    refine ⟨true, CanDiffer.cons false (CanDiffer.replicate rfl rfl count
                      (CanDiffer.cons false ?_))⟩
                    exact Apart.exists_rest ⟨rfl, .inr (.inl ⟨rfl, rfl, rfl⟩)⟩ later
              · exact ⟨false, CanDiffer.cons false (CanDiffer.replicate rfl rfl count
                  (behindOr (by simp; omega) mixedLater rfl rfl))⟩

/-- The two groupings of a line agree on all truth values of its atoms exactly
when no stretch between two `or`s mixes `and` and `xor`. -/
theorem lineValue_agree_iff (words : List Connective) :
    (∀ first (rest : List (Connective × Bool)), rest.map Prod.fst = words →
        lineValue Cpp.BinOp.binds first rest = lineValue sqlBinds first rest) ↔
      unmixed none words = true := by
  constructor
  · intro agree
    by_contra mixed
    rw [Bool.not_eq_true] at mixed
    obtain ⟨first, rest, isRest, differ⟩ := exists_canDiffer mixed
    have equal := agree first rest isRest
    rw [lineValue_cpp, lineValue_sql] at equal
    exact differ equal
  · rintro isUnmixed first rest rfl
    rw [lineValue_cpp, lineValue_sql]
    have fresh : Agrees none ⟨false, true, first⟩ ⟨false, false, first⟩ := ⟨rfl, rfl, rfl, rfl⟩
    exact fresh.total_foldl_eq isUnmixed

/-! ## The guard of a line -/

/-- On the given rows and vectors the expression has the truth value and
changes nothing. -/
def Cpp.TellsAt
    (env : Env)
    (vectors : Nat → List Record)
    (expr : Cpp.Expr)
    (truth : Bool) : Prop :=
  ∃ value, Cpp.eval env expr vectors = some (value, vectors) ∧ value.truth = some truth

/-- The connectives combine truth values. -/
theorem Cpp.TellsAt.binary
    {env : Env}
    {vectors : Nat → List Record}
    {left right : Cpp.Expr}
    {leftTruth rightTruth : Bool}
    (leftTells : Cpp.TellsAt env vectors left leftTruth)
    (rightTells : Cpp.TellsAt env vectors right rightTruth)
    (connective : Connective) :
    Cpp.TellsAt env vectors (.binary connective.operator left right)
      (connectiveNode connective.operator leftTruth rightTruth) := by
  obtain ⟨leftValue, leftEval, leftIs⟩ := leftTells
  obtain ⟨rightValue, rightEval, rightIs⟩ := rightTells
  cases connective with
  | and =>
      refine ⟨.bool (leftTruth && rightTruth), ?_, rfl⟩
      simp only [Connective.operator, Cpp.eval, leftEval, Option.bind_some, leftIs]
      cases leftTruth with
      | true => simp [rightEval, rightIs]
      | false => simp
  | or =>
      refine ⟨.bool (leftTruth || rightTruth), ?_, rfl⟩
      simp only [Connective.operator, Cpp.eval, leftEval, Option.bind_some, leftIs]
      cases leftTruth with
      | true => simp
      | false => simp [rightEval, rightIs]
  | xor =>
      refine ⟨.num false (if leftTruth != rightTruth then 1 else 0), ?_, ?_⟩
      · simp only [Connective.operator, Cpp.eval, leftEval, Option.bind_some, rightEval,
          Cpp.BinOp.apply, Cpp.BinOp.bits, leftIs, rightIs, Option.map_some]
      · cases leftTruth <;> cases rightTruth <;> rfl

/-- The guard of a line evaluates, on rows where the atoms' comparisons have
given truth values, to the value of the line grouped as C++ groups it. That is
its value in SQL for all truth values exactly when no stretch between two `or`s
mixes `and` and `xor`. -/
theorem connectives_keep_meaning_iff
    (columns : List Column)
    (groupingAttr : List Text)
    (first : LineAtom)
    (rest : List (Connective × LineAtom))
    (named : NamedColumns columns)
    (namedAttr : ∀ attr ∈ groupingAttr, Cpp.isName attr = true)
    (wellFormed : ∀ atom ∈ first :: rest.map Prod.snd, atom.WellFormed columns) :
    ∃ conditions guard,
      Conditions.ofText (joinWith ' ' (linePieces LineAtom.text first rest)) = some conditions ∧
      conditions.toCpp "(*it)" "(*xt)" groupingAttr columns = some guard ∧
      (∀ (env : Env) (vectors : Nat → List Record) (firstTruth : Bool)
          (truths : List (Connective × Bool)),
        Cpp.TellsAt env vectors (first.expr groupingAttr) firstTruth →
        List.Forall₂ (fun entry truth => entry.1 = truth.1 ∧
          Cpp.TellsAt env vectors (entry.2.expr groupingAttr) truth.2) rest truths →
        Cpp.condition env guard vectors =
          some (lineValue Cpp.BinOp.binds firstTruth truths, vectors)) ∧
      ((∀ (firstTruth : Bool) (truths : List (Connective × Bool)),
          truths.map Prod.fst = rest.map Prod.fst →
            lineValue Cpp.BinOp.binds firstTruth truths = lineValue sqlBinds firstTruth truths) ↔
        unmixed none (rest.map Prod.fst) = true) := by
  have parsed : Conditions.ofText (joinWith ' ' (linePieces LineAtom.text first rest)) = _ :=
    Conditions.ofText_linePieces
      (fun atom member => atom.space_notMem_text named (wellFormed atom member))
      (fun atom _ => atom.dot_mem_text)
      (fun atom member => atom.ofText_text named (wellFormed atom member))
  obtain ⟨guard, translated, read⟩ := Conditions.read_toCpp
    fun atom member => LineAtom.toCpp_writes named (wellFormed atom member) namedAttr
  refine ⟨_, guard, parsed, translated, ?_, lineValue_agree_iff _⟩
  intro env vectors firstTruth truths firstTells restTells
  have respects : ∀ operator left right leftTruth rightTruth, IsConnective operator →
      Cpp.TellsAt env vectors left leftTruth → Cpp.TellsAt env vectors right rightTruth →
        Cpp.TellsAt env vectors (.binary operator left right)
          (connectiveNode operator leftTruth rightTruth) := by
    rintro operator left right leftTruth rightTruth ⟨connective, rfl⟩ leftTells rightTells
    exact leftTells.binary rightTells connective
  have told : Cpp.TellsAt env vectors
      (chain .binary Cpp.BinOp.binds [] (first.expr groupingAttr)
        (rest.map fun entry => (entry.1.operator, entry.2.expr groupingAttr)))
      (lineValue Cpp.BinOp.binds firstTruth truths) := by
    refine related_chain respects Cpp.BinOp.binds ?_ .nil firstTells
    rw [List.forall₂_map_left_iff, List.forall₂_map_right_iff]
    refine restTells.imp ?_
    rintro entry truth ⟨same, tells⟩
    exact ⟨congrArg Connective.operator same, ⟨entry.1, rfl⟩, tells⟩
  obtain ⟨value, evaluated, isTruth⟩ := told
  simp only [Cpp.condition, read, Option.bind_some, evaluated, isTruth, Option.map_some]

/-- `quant > n`. -/
def quantAbove (n : Int) : LineAtom := .plain ⟨1, "quant", .gt, .int n⟩

theorem quantAbove_wellFormed (n : Int) : (quantAbove n).WellFormed saleColumns :=
  ⟨⟨(by decide : 1 < 2 ^ 31), ⟨⟨"quant", .int⟩, by decide, rfl⟩, trivial⟩, trivial⟩

/-- A line of `and`s and `or`s keeps its meaning. -/
theorem connectives_keep_meaning_iff_sale :
    ∃ conditions guard,
      Conditions.ofText (joinWith ' ' (linePieces LineAtom.text (quantAbove 1)
        [(.and, quantAbove 2), (.or, quantAbove 3)])) = some conditions ∧
      conditions.toCpp "(*it)" "(*xt)" ["cust"] saleColumns = some guard ∧
      ∀ (firstTruth : Bool) (truths : List (Connective × Bool)),
        truths.map Prod.fst = [.and, .or] →
          lineValue Cpp.BinOp.binds firstTruth truths = lineValue sqlBinds firstTruth truths := by
  obtain ⟨conditions, guard, parsed, translated, -, agree⟩ := connectives_keep_meaning_iff
    saleColumns ["cust"] (quantAbove 1) [(.and, quantAbove 2), (.or, quantAbove 3)]
    namedColumns_saleColumns (by decide) (by simp [quantAbove_wellFormed])
  exact ⟨conditions, guard, parsed, translated, agree.mpr rfl⟩

/-- `quant > 7 xor quant > 5 and quant > 9` on a sale of eight: the first two
comparisons hold and the third does not, so the line is true in SQL; its guard
is false. -/
theorem xor_before_and :
    (Conditions.ofText "1.quant>7 xor 1.quant>5 and 1.quant>9").bind
        (fun line => (line.toCpp "(*it)" "(*xt)" ["cust"] saleColumns).bind fun guard =>
          (Cpp.condition (envAt (rowWith "quant" (.int 8))) guard fun _ => []).map Prod.fst) =
      some false ∧
      lineValue sqlBinds true [(.xor, true), (.and, false)] = true := by
  constructor
  · decide +kernel
  · rfl

end MfQuery
