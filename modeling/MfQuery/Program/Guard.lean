import MfQuery.Cpp.Line
import MfQuery.Program.Eval

/-!
# Emitted guards

An atom of a such-that line compares a column with an integer, a quoted
string, a grouping attribute or a grouping attribute plus or minus a constant.
Its translation is followed through the three stages an emitted guard passes:
the text `Condition::toCpp` writes, the expression a C++ compiler reads from
it, and the value of that expression on the loop rows.
-/

namespace MfQuery

open Text

/-! ## Comparison operators -/

namespace CmpOp

/-- What the operator means on an ordered type; `<>` and `!=` are both
inequality. -/
def holds
    {Content : Type}
    [LT Content]
    [DecidableLT Content]
    [DecidableEq Content] : CmpOp → Content → Content → Bool
  | eq, left, right => decide (left = right)
  | lt, left, right => decide (left < right)
  | gt, left, right => decide (right < left)
  | le, left, right => !decide (right < left)
  | ge, left, right => !decide (left < right)
  | ne, left, right => decide (left ≠ right)
  | diamond, left, right => decide (left ≠ right)

/-- The C++ operator of a numeric comparison. -/
def binOp : CmpOp → Cpp.BinOp
  | eq => .eq
  | lt => .lt
  | gt => .gt
  | le => .le
  | ge => .ge
  | ne | diamond => .ne

/-- Its spelling. -/
def symbol : CmpOp → Text
  | eq => ['=', '=']
  | lt => ['<']
  | gt => ['>']
  | le => ['<', '=']
  | ge => ['>', '=']
  | ne | diamond => ['!', '=']

theorem isInfix (operator : CmpOp) : Cpp.Parser.Infix operator.symbol operator.binOp := by
  cases operator <;> exact fun _ _ => rfl

theorem rank_binOp (operator : CmpOp) :
    operator.binOp.rank = 4 ∨ operator.binOp.rank = 5 := by
  cases operator <;> simp [binOp, Cpp.BinOp.rank]

theorem spells_symbol (operator : CmpOp) :
    Cpp.Spells (' ' :: (operator.symbol ++ [' '])) [.punct operator.symbol] .start := by
  cases operator <;> exact .of_closed rfl

/-- Evaluation of a comparison of two numbers. -/
theorem apply_binOp
    (operator : CmpOp)
    {left right : Val}
    {leftWide rightWide : Bool}
    {leftValue rightValue : Int}
    (leftNum : left.asNum = some (leftWide, leftValue))
    (rightNum : right.asNum = some (rightWide, rightValue)) :
    operator.binOp.apply left right = some (.bool (operator.holds leftValue rightValue)) := by
  cases operator <;>
    simp [binOp, Cpp.BinOp.apply, leftNum, rightNum, Cpp.BinOp.compareNum, holds] <;>
    grind

end CmpOp

/-! ## Operands -/

/-- The name of an iterator. -/
def Iter.name : Iter → Text
  | it => "it"
  | xt => "xt"

/-- A column of the row of an iterator, as the translations write it. -/
def memberText (iter : Iter) (column : Text) : Text := iter.text ++ "->" ++ column

theorem spells_member
    (iter : Iter)
    {column : Text}
    (isName : Cpp.isName column = true) :
    Cpp.Spells (memberText iter column) (Cpp.Parser.memberTokens iter.name column)
      (.ident column) := by
  have opening : Cpp.Spells (iter.text ++ "->")
      [.punct "(", .punct "*", .ident iter.name, .punct ")", .punct "->"] .start := by
    cases iter <;> exact .of_closed rfl
  exact opening.append_start (.name isName)

theorem eval_member
    {env : Env}
    {iter : Iter}
    {row : Row}
    (bound : env.rows iter = some row)
    (column : Text)
    (group : Nat → List Record) :
    Cpp.eval env (Cpp.Parser.memberExpr iter.name column) group =
      some (.cell (row column) none, group) := by
  have found : env.lookup iter.name = some (.iter iter) := by
    cases iter <;> simp [Env.lookup, Iter.name, Env.iterator, bound]
  simp [Cpp.Parser.memberExpr, Cpp.eval, found, Cpp.UnOp.apply, bound, Cpp.arrowVal]

/-- The left-hand side of a translated atom: columns whose name contains
`avg` are read through `value()`. -/
def operandExpr (column : Text) : Cpp.Expr :=
  if contains column "avg" then
    .call (.dot (Cpp.Parser.memberExpr Iter.it.name column) "value")
  else Cpp.Parser.memberExpr Iter.it.name column

theorem spells_operand
    {condition : Condition}
    (isName : Cpp.isName condition.column = true) :
    ∃ tokens mode, Cpp.Spells (condition.operand "(*it)") tokens mode ∧
      Cpp.breaks mode ' ' ∧ Cpp.breaks mode '.' ∧
      Cpp.Parser.ReadsOperand tokens (operandExpr condition.column) := by
  have member := spells_member .it isName
  have reads := Cpp.Parser.ReadsOperand.member Iter.it.name condition.column
  unfold Condition.operand operandExpr
  split_ifs with average
  · have behind : Cpp.Spells ".value()" [.punct ".", .ident "value", .punct "(", .punct ")"]
        (.punct ')') := .of_closed rfl
    have ends : Cpp.breaks (.ident condition.column) '.' := Cpp.breaks_ident rfl _
    exact ⟨_, _, member.append ends behind, rfl, rfl, reads.methodCall _⟩
  · refine ⟨Cpp.Parser.memberTokens Iter.it.name condition.column, .ident condition.column, ?_,
      Cpp.breaks_ident rfl _, Cpp.breaks_ident rfl _, reads⟩
    rw [List.append_nil]
    exact member

/-- The sign of a constant. -/
inductive Sign
  | plus
  | minus
  deriving DecidableEq, Repr

namespace Sign

/-- Its character. -/
def character : Sign → Char
  | plus => '+'
  | minus => '-'

/-- The operator it is in infix position. -/
def binOp : Sign → Cpp.BinOp
  | plus => .add
  | minus => .sub

/-- The sum or difference. -/
def shift : Sign → Int → Nat → Int
  | plus, value, constant => value + constant
  | minus, value, constant => value - constant

theorem isInfix (sign : Sign) : Cpp.Parser.Infix [sign.character] sign.binOp := by
  cases sign <;> exact fun _ _ => rfl

theorem rank_binOp (sign : Sign) : sign.binOp.rank = 6 := by
  cases sign <;> rfl

theorem identRest_character (sign : Sign) : identRest sign.character = false := by
  cases sign <;> decide

end Sign

/-- A signed numeral. -/
theorem spells_sign
    (sign : Sign)
    (value : Nat) :
    Cpp.Spells (sign.character :: numeral value)
      [.punct [sign.character], .number (numeral value)] (.number (numeral value)) := by
  have first : Cpp.Spells [sign.character] [.punct [sign.character]]
      (.punct sign.character) := by
    cases sign <;> exact .of_closed rfl
  have digits := Cpp.Spells.numeral value
  obtain ⟨digit, rest, shape⟩ := List.exists_cons_of_ne_nil (numeral_ne_nil value)
  have isDigit : digit.isDigit = true := isDigit_of_mem_numeral (by rw [shape]; simp)
  have breaksHere : Cpp.breaks (.punct sign.character) digit :=
    Cpp.breaks_punct_of_identRest (identRest_of_isDigit isDigit) sign.character
  rw [shape] at digits ⊢
  exact first.append breaksHere digits

/-! ## Integer literals -/

/-- Decimal text of an integer. -/
def integerText (value : Int) : Text :=
  if value < 0 then '-' :: numeral value.natAbs else numeral value.natAbs

/-- The expression read from it. -/
def integerExpr (value : Int) : Cpp.Expr :=
  if value < 0 then .unary .neg (.number (numeral value.natAbs))
  else .number (numeral value.natAbs)

theorem spells_integer (value : Int) :
    ∃ tokens, Cpp.Spells (integerText value) tokens (.number (numeral value.natAbs)) ∧
      Cpp.Parser.ReadsSum tokens (integerExpr value) := by
  have digits := Cpp.Parser.ReadsOperand.number (numeral value.natAbs)
  unfold integerText integerExpr
  split_ifs
  · exact ⟨_, spells_sign .minus _, digits.negated⟩
  · exact ⟨_, .numeral _, digits.readsSum⟩

theorem canonical_numeral (value : Nat) : canonical (numeral value) = some value := by
  have digits : (numeral value).all Char.isDigit = true := by
    rw [List.all_eq_true]
    exact fun _ member => isDigit_of_mem_numeral member
  simp [canonical, digits]

theorem literal_numeral (value : Nat) :
    literal (numeral value) =
      if value < 2 ^ 63 then some (.num (decide (2 ^ 31 ≤ value)) value) else none := by
  simp only [literal, canonical_numeral, Option.filter_some, decide_eq_true_eq]
  split_ifs <;> rfl

/-- A literal below the 64-bit bound evaluates to its value, an `int` where it
fits. -/
theorem eval_integer_eq
    {value : Int}
    (fits : value.natAbs < 2 ^ 63)
    (env : Env)
    (group : Nat → List Record) :
    Cpp.eval env (integerExpr value) group =
      some (.num (decide (2 ^ 31 ≤ value.natAbs)) value, group) := by
  unfold integerExpr
  split_ifs with negative
  · have wrapped : wrapTo (decide (2 ^ 31 ≤ value.natAbs)) (-(value.natAbs : Int)) = value := by
      unfold wrapTo
      split_ifs with wide
      · rw [wrap64_of_bounds] <;> omega
      · simp only [decide_eq_true_eq] at wide
        rw [wrap32_of_bounds] <;> omega
    simp only [Cpp.eval, literal_numeral, if_pos fits, Option.map_some, Option.bind_some,
      Cpp.UnOp.apply, Val.asNum, wrapped]
  · have same : (value.natAbs : Int) = value := by omega
    simp only [Cpp.eval, literal_numeral, if_pos fits, Option.map_some, same]

theorem eval_integer
    {value : Int}
    (fits : value.natAbs < 2 ^ 63)
    (env : Env)
    (group : Nat → List Record) :
    ∃ wide, Cpp.eval env (integerExpr value) group = some (.num wide value, group) :=
  ⟨_, eval_integer_eq fits env group⟩

/-- A larger literal is no C++ literal. -/
theorem eval_integer_of_large
    {value : Int}
    (large : ¬value.natAbs < 2 ^ 63)
    (env : Env)
    (group : Nat → List Record) :
    Cpp.eval env (integerExpr value) group = none := by
  unfold integerExpr
  split_ifs
  · simp only [Cpp.eval, literal_numeral, if_neg large, Option.map_none, Option.bind_none]
  · simp only [Cpp.eval, literal_numeral, if_neg large, Option.map_none]

/-! ## Atoms -/

/-- The value an atom compares with. -/
inductive AtomValue
  | int (value : Int)
  | str (text : Text)
  | attr (name : Text)
  | shifted (name : Text) (sign : Sign) (constant : Nat)
  deriving DecidableEq, Repr

/-- The value as written in the query. -/
def AtomValue.text : AtomValue → Text
  | int value => integerText value
  | str text => '\'' :: (text ++ ['\''])
  | attr name => name
  | shifted name sign constant => name ++ sign.character :: numeral constant

/-- An atom of a such-that line. -/
structure Atom where
  group : Nat
  column : Text
  operator : CmpOp
  value : AtomValue
  deriving DecidableEq, Repr

/-- The atom as written in the query. -/
def Atom.text (atom : Atom) : Text :=
  atomText atom.group atom.column atom.operator atom.value.text

/-- The expression read from its translation. -/
def Atom.expr (atom : Atom) : Cpp.Expr :=
  let operand := operandExpr atom.column
  match atom.value with
  | .int value => .binary atom.operator.binOp operand (integerExpr value)
  | .str text =>
      .binary .eq (.call (.supply (.dot operand "compare") (.string text))) (.number (numeral 0))
  | .attr name =>
      .binary atom.operator.binOp operand (Cpp.Parser.memberExpr Iter.xt.name name)
  | .shifted name sign constant => .binary atom.operator.binOp operand
      (.binary sign.binOp (Cpp.Parser.memberExpr Iter.xt.name name) (.number (numeral constant)))

/-- String literals that stand for themselves: no quotes, backslashes and
newlines, no underscore and no column name inside. -/
structure PlainLiteral (columns : List Column) (text : Text) : Prop where
  plain : ∀ character ∈ text, Cpp.plainInString character = true
  unquoted : '\'' ∉ text
  noUnderscore : '_' ∉ text
  noColumn : Column.hasColumn text columns = false

/-- What the value of an atom may be over the columns of the table. -/
def AtomValue.WellFormed (columns : List Column) : AtomValue → Prop
  | int _ => True
  | str text => PlainLiteral columns text
  | attr name => ∃ column ∈ columns, column.name = name
  | shifted name _ _ => (∃ column ∈ columns, column.name = name) ∧ '_' ∉ name

/-- The columns of the table are named by identifiers. -/
def NamedColumns (columns : List Column) : Prop :=
  ∀ column ∈ columns, Cpp.isName column.name = true

/-- An atom over the columns of the table. -/
structure Atom.WellFormed (columns : List Column) (atom : Atom) : Prop where
  group_lt : atom.group < 2 ^ 31
  column_mem : ∃ column ∈ columns, column.name = atom.column
  value : atom.value.WellFormed columns

/-! ## The written atom -/

theorem separates_of_head
    (operator : CmpOp)
    {value : Text}
    (head : ∃ first rest, value = first :: rest ∧ first ≠ '=' ∧ first ≠ '>') :
    operator.Separates value := by
  obtain ⟨first, rest, rfl, notEqual, notGreater⟩ := head
  unfold CmpOp.Separates
  cases operator <;> simp [CmpOp.text, twoCharacterOps, notEqual, notGreater]

theorem mem_integerText
    {value : Int}
    {character : Char}
    (member : character ∈ integerText value) :
    character.isDigit = true ∨ character = '-' := by
  unfold integerText at member
  split_ifs at member
  · rcases List.mem_cons.mp member with sign | digit
    · exact .inr sign
    · exact .inl (isDigit_of_mem_numeral digit)
  · exact .inl (isDigit_of_mem_numeral member)

/-- A character that is neither a digit nor a sign is in no integer literal. -/
theorem notMem_integerText
    {character : Char}
    (noDigit : character.isDigit = false)
    (noSign : character ≠ '-')
    (value : Int) :
    character ∉ integerText value := by
  intro member
  rcases mem_integerText member with digit | sign
  · rw [noDigit] at digit
    exact Bool.noConfusion digit
  · exact noSign sign

theorem notMem_numeral
    {character : Char}
    (noDigit : character.isDigit = false)
    (value : Nat) :
    character ∉ numeral value := by
  intro member
  rw [isDigit_of_mem_numeral member] at noDigit
  exact Bool.noConfusion noDigit

theorem isIdent_of_isName
    {name : Text}
    (isName : Cpp.isName name = true) :
    isIdent name = true := by
  simp only [Cpp.isName, Bool.and_eq_true] at isName
  exact isName.1

/-- No column name occurs inside an integer literal. -/
theorem hasColumn_integerText
    {columns : List Column}
    (named : NamedColumns columns)
    (value : Int) :
    Column.hasColumn (integerText value) columns = false := by
  rw [Column.hasColumn, List.any_eq_false]
  intro column member
  rw [Bool.not_eq_true]
  apply contains_eq_false_of_isIdent (isIdent_of_isName (named column member))
  intro character inside
  rcases mem_integerText inside with digit | rfl
  · exact identStart_eq_false_of_isDigit digit
  · decide

/-- A part without quotes of a quoted text is a part of the text. -/
theorem infix_of_infix_quoted
    {part text : Text}
    (nonempty : part ≠ [])
    (unquoted : '"' ∉ part)
    (inside : part <:+: '"' :: (text ++ ['"'])) :
    part <:+: text := by
  rcases List.infix_cons_iff.mp inside with atStart | later
  · obtain ⟨first, rest, rfl⟩ := List.exists_cons_of_ne_nil nonempty
    obtain ⟨rfl, -⟩ := List.cons_prefix_cons.mp atStart
    simp at unquoted
  · rcases List.infix_concat_iff.mp later with atEnd | within
    · rcases List.suffix_concat_iff.mp atEnd with empty | ⟨front, rfl, -⟩
      · exact (nonempty empty).elim
      · simp at unquoted
    · exact within

/-- No column name occurs inside a quoted plain literal. -/
theorem hasColumn_quoted
    {columns : List Column}
    (named : NamedColumns columns)
    {text : Text}
    (noColumn : Column.hasColumn text columns = false) :
    Column.hasColumn ('"' :: (text ++ ['"'])) columns = false := by
  rw [Bool.eq_false_iff] at noColumn ⊢
  intro found
  apply noColumn
  rw [Column.hasColumn_eq_true] at found ⊢
  obtain ⟨column, member, inside⟩ := found
  have identifier := isIdent_of_isName (named column member)
  exact ⟨column, member, infix_of_infix_quoted (ne_nil_of_isIdent identifier)
    (not_mem_of_isIdent identifier (by decide)) inside⟩

/-- A text with a character foreign to identifiers is no column. -/
theorem isColumn_eq_false_of_mem
    {columns : List Column}
    (named : NamedColumns columns)
    {text : Text}
    {character : Char}
    (foreign : identRest character = false)
    (member : character ∈ text) :
    Column.isColumn text columns = false := by
  rw [Bool.eq_false_iff]
  intro found
  rw [Column.isColumn_eq_true] at found
  obtain ⟨column, inside, rfl⟩ := found
  exact not_mem_of_isIdent (isIdent_of_isName (named column inside)) foreign member

theorem isColumn_eq_false_of_hasColumn
    {columns : List Column}
    {text : Text}
    (noColumn : Column.hasColumn text columns = false) :
    Column.isColumn text columns = false := by
  rw [Bool.eq_false_iff] at noColumn ⊢
  exact fun found => noColumn (Column.hasColumn_of_isColumn found)

theorem isAggregate_eq_false
    {text : Text}
    (noUnderscore : '_' ∉ text) :
    Aggregate.isAggregate text = false := by
  rw [Bool.eq_false_iff]
  exact fun found => noUnderscore ((Aggregate.isAggregate_eq_true text).mp found)

/-- A numeric comparison spells its operator between its two sides. -/
theorem spells_comparison
    {condition : Condition}
    {operator : CmpOp}
    (isName : Cpp.isName condition.column = true)
    (written : condition.exp = operator.exp)
    (unquoted : '"' ∉ condition.value)
    {right : Text}
    {tokens : List Cpp.Token}
    {mode : Cpp.Mode}
    {expr : Cpp.Expr}
    (spelled : Cpp.Spells right tokens mode)
    (reads : Cpp.Parser.ReadsSum tokens expr) :
    ∃ all, Cpp.Spells (condition.compareWith (condition.operand "(*it)") right) all mode ∧
      Cpp.Parser.ReadsCondition all
        (.binary operator.binOp (operandExpr condition.column) expr) := by
  obtain ⟨leftTokens, leftMode, leftSpelled, leftEnds, -, leftReads⟩ := spells_operand isName
  have quote : '"' ∈ ("\"" : Text) := by simp
  have noQuote := contains_eq_false_of_mem quote unquoted
  have text : condition.compareWith (condition.operand "(*it)") right =
      condition.operand "(*it)" ++ ' ' :: ((operator.symbol ++ [' ']) ++ right) := by
    rw [Condition.compareWith, noQuote, written]
    cases operator <;> simp [CmpOp.exp, CmpOp.symbol]
  have behind := operator.spells_symbol.append_start spelled
  refine ⟨_, ?_, leftReads.compare operator.isInfix operator.rank_binOp reads⟩
  rw [text]
  exact leftSpelled.append leftEnds behind

theorem writes_comparison
    {condition : Condition}
    {operator : CmpOp}
    (isName : Cpp.isName condition.column = true)
    (written : condition.exp = operator.exp)
    (unquoted : '"' ∉ condition.value)
    {right : Text}
    {tokens : List Cpp.Token}
    {mode : Cpp.Mode}
    {expr : Cpp.Expr}
    (spelled : Cpp.Spells right tokens mode)
    (ends : Cpp.breaks mode ' ')
    (reads : Cpp.Parser.ReadsSum tokens expr) :
    Cpp.Writes (condition.compareWith (condition.operand "(*it)") right)
      (.binary operator.binOp (operandExpr condition.column) expr) := by
  obtain ⟨all, allSpelled, allReads⟩ :=
    spells_comparison isName written unquoted spelled reads
  exact ⟨all, mode, allSpelled, ends, allReads⟩

/-- The string branch always spells `compare(...) == 0`. -/
theorem writes_compareString
    {condition : Condition}
    {text : Text}
    (isName : Cpp.isName condition.column = true)
    (quoted : condition.value = '"' :: (text ++ ['"']))
    (plain : ∀ character ∈ text, Cpp.plainInString character = true) :
    Cpp.Writes (condition.compareWith (condition.operand "(*it)") condition.value)
      (.binary .eq (.call (.supply (.dot (operandExpr condition.column) "compare")
        (.string text))) (.number (numeral 0))) := by
  obtain ⟨leftTokens, leftMode, leftSpelled, -, leftEnds, leftReads⟩ := spells_operand isName
  have hasQuote : contains condition.value "\"" = true := by
    rw [contains_eq_true, quoted]
    exact ⟨[], text ++ ['"'], rfl⟩
  have opening : Cpp.Spells ('.' :: ("compare(" : Text))
      [.punct ".", .ident "compare", .punct "("] (.punct '(') := .of_closed rfl
  have closing : Cpp.Spells ") == 0" [.punct ")", .punct "==", .number "0"] (.number "0") :=
    .of_closed rfl
  have ends : Cpp.breaks (.punct '(') '"' := rfl
  have behind := opening.append ends ((Cpp.Spells.quoted plain).append_start closing)
  have equality : Cpp.Parser.Infix "==" .eq := fun _ _ => rfl
  have reads := (leftReads.methodCallString "compare" text).compare equality (.inl rfl)
    (Cpp.Parser.ReadsOperand.number "0").readsSum
  refine ⟨_, .number "0", ?_, Cpp.breaks_number (by decide) (by decide) _, reads⟩
  have split : (".compare(" : Text) = '.' :: ("compare(" : Text) := rfl
  have whole := leftSpelled.append leftEnds behind
  rw [Condition.compareWith, if_pos hasQuote, quoted, split]
  simpa only [List.append_eq, List.append_assoc, List.cons_append, List.nil_append] using whole

/-! ## The translation -/

section Translation

variable {columns : List Column} {atom : Atom}

/-- The condition the constructor reads from a written atom. -/
def Atom.condition (atom : Atom) : Condition :=
  ⟨atom.group, atom.column, atom.operator.exp, doubleQuotes atom.value.text⟩

theorem Atom.isName_column
    (named : NamedColumns columns)
    (wellFormed : atom.WellFormed columns) :
    Cpp.isName atom.column = true := by
  obtain ⟨column, member, equal⟩ := wellFormed.column_mem
  rw [← equal]
  exact named column member

theorem isOpStart_eq_false
    {name : Text}
    (identifier : isIdent name = true) :
    ∀ character ∈ name, isOpStart character = false := by
  intro character member
  rw [Bool.eq_false_iff]
  intro start
  have inside := identRest_of_mem identifier member
  simp only [isOpStart, Bool.or_eq_true, beq_iff_eq] at start
  rcases start with ((rfl | rfl) | rfl) | rfl <;> exact absurd inside (by decide)

/-- First character of an identifier. -/
theorem exists_head_of_isName
    {name : Text}
    (isName : Cpp.isName name = true)
    (rest : Text) :
    ∃ first tail, name ++ rest = first :: tail ∧ first ≠ '=' ∧ first ≠ '>' := by
  obtain ⟨first, tail, rfl, start⟩ := exists_identStart_mem (isIdent_of_isName isName)
  refine ⟨first, tail ++ rest, rfl, ?_, ?_⟩ <;>
    · rintro rfl
      exact absurd start (by decide)

theorem integerText_ne_nil (value : Int) : integerText value ≠ [] := by
  unfold integerText
  split_ifs
  · simp
  · exact numeral_ne_nil _

theorem exists_head_integerText (value : Int) :
    ∃ first rest, integerText value = first :: rest ∧ first ≠ '=' ∧ first ≠ '>' := by
  obtain ⟨first, rest, shape⟩ := List.exists_cons_of_ne_nil (integerText_ne_nil value)
  have member : first ∈ integerText value := by simp [shape]
  refine ⟨first, rest, shape, ?_, ?_⟩
  · rintro rfl
    exact notMem_integerText (by decide) (by decide) value member
  · rintro rfl
    exact notMem_integerText (by decide) (by decide) value member

/-- The constructor reads a well-formed atom. -/
theorem Atom.ofText_text
    (named : NamedColumns columns)
    (wellFormed : atom.WellFormed columns) :
    Condition.ofText atom.text = some atom.condition := by
  have isName := atom.isName_column named wellFormed
  refine Condition.ofText_atomText wellFormed.group_lt
    (isOpStart_eq_false (isIdent_of_isName isName)) (separates_of_head _ ?_)
  have value := wellFormed.value
  cases shape : atom.value with
  | int value => exact exists_head_integerText value
  | str text => exact ⟨'\'', _, rfl, by decide, by decide⟩
  | attr name =>
      rw [shape] at value
      obtain ⟨column, member, rfl⟩ := value
      simpa [AtomValue.text] using exists_head_of_isName (named column member) []
  | shifted name sign constant =>
      rw [shape] at value
      obtain ⟨⟨column, member, rfl⟩, -⟩ := value
      exact exists_head_of_isName (named column member) _

/-- A character foreign to a name, to signs and to numerals is in no shifted
column. -/
theorem notMem_shifted
    {name : Text}
    {character : Char}
    (absent : character ∉ name)
    (noSign : character ≠ '+' ∧ character ≠ '-')
    (noDigit : character.isDigit = false)
    (sign : Sign)
    (constant : Nat) :
    character ∉ name ++ sign.character :: numeral constant := by
  simp only [List.mem_append, List.mem_cons, not_or]
  refine ⟨absent, ?_, notMem_numeral noDigit constant⟩
  cases sign with
  | plus => exact noSign.1
  | minus => exact noSign.2

/-- A column with a signed constant behind it takes the branch for texts with
a column inside. -/
theorem Condition.toCpp_shifted
    (named : NamedColumns columns)
    {condition : Condition}
    {column : Column}
    (member : column ∈ columns)
    (noUnderscore : '_' ∉ column.name)
    {sign : Sign}
    {constant : Nat}
    (shape : condition.value = column.name ++ sign.character :: numeral constant)
    (var var2 : Text)
    (groupingAttr : List Text) :
    condition.toCpp var var2 groupingAttr columns =
      some (condition.compareWith (condition.operand var) (var2 ++ "->" ++ condition.value)) := by
  have signInside : sign.character ∈ condition.value := by simp [shape]
  have notColumn : Column.isColumn condition.value columns = false :=
    isColumn_eq_false_of_mem named sign.identRest_character signInside
  have notAggregate : Aggregate.isAggregate condition.value = false := by
    rw [shape]
    exact isAggregate_eq_false
      (notMem_shifted noUnderscore (by decide) (by decide) sign constant)
  have inside : Column.hasColumn condition.value columns = true := by
    rw [Column.hasColumn_eq_true, shape]
    exact ⟨column, member, (List.prefix_append ..).isInfix⟩
  simp [Condition.toCpp, notColumn, notAggregate, inside]

/-- A text with neither a column nor an underscore inside is taken as a
literal. -/
theorem Condition.toCpp_literal
    {condition : Condition}
    (noColumn : Column.hasColumn condition.value columns = false)
    (noUnderscore : '_' ∉ condition.value)
    (var var2 : Text)
    (groupingAttr : List Text) :
    condition.toCpp var var2 groupingAttr columns =
      some (condition.compareWith (condition.operand var) condition.value) := by
  simp [Condition.toCpp, isColumn_eq_false_of_hasColumn noColumn,
    isAggregate_eq_false noUnderscore, noColumn]

/-- A column of the scanned row, with a signed constant behind it. -/
theorem spells_shifted
    {name : Text}
    (isName : Cpp.isName name = true)
    (sign : Sign)
    (constant : Nat) :
    Cpp.Spells (memberText .xt (name ++ sign.character :: numeral constant))
      (Cpp.Parser.memberTokens Iter.xt.name name ++
        .punct [sign.character] :: [.number (numeral constant)])
      (.number (numeral constant)) := by
  have member := spells_member .xt isName
  have ends := Cpp.breaks_ident sign.identRest_character name
  have whole := member.append ends (spells_sign sign constant)
  simpa only [memberText, List.append_assoc] using whole

theorem breaks_numeral (value : Nat) : Cpp.breaks (.number (numeral value)) ' ' :=
  Cpp.breaks_number (by decide) (by decide) _

/-- `toCpp` translates a well-formed atom, and its text is read as the atom's
expression. -/
theorem Atom.toCpp_writes
    (named : NamedColumns columns)
    (wellFormed : atom.WellFormed columns)
    (groupingAttr : List Text) :
    ∃ text, atom.condition.toCpp "(*it)" "(*xt)" groupingAttr columns = some text ∧
      Cpp.Writes text atom.expr := by
  have isName := atom.isName_column named wellFormed
  obtain ⟨group, column, operator, value⟩ := atom
  have valueFormed := wellFormed.value
  -- the operator sits in the condition as the constructor left it
  have written : (Atom.condition ⟨group, column, operator, value⟩).exp = operator.exp := rfl
  cases value with
  | int value =>
      have unquoted : '\'' ∉ integerText value := notMem_integerText (by decide) (by decide) _
      have same : (Atom.condition ⟨group, column, operator, .int value⟩).value =
          integerText value := doubleQuotes_of_notMem unquoted
      obtain ⟨tokens, spelled, reads⟩ := spells_integer value
      refine ⟨_, Condition.toCpp_literal ?_ ?_ .., ?_⟩
      · rw [same]
        exact hasColumn_integerText named value
      · rw [same]
        exact notMem_integerText (by decide) (by decide) _
      · rw [same]
        refine writes_comparison isName written ?_ spelled (breaks_numeral _) reads
        rw [same]
        exact notMem_integerText (by decide) (by decide) _
  | str text =>
      have quoted : (Atom.condition ⟨group, column, operator, .str text⟩).value =
          '"' :: (text ++ ['"']) := by
        have inner := doubleQuotes_of_notMem valueFormed.unquoted
        simp only [doubleQuotes] at inner
        simp [Atom.condition, AtomValue.text, doubleQuotes, inner]
      refine ⟨_, Condition.toCpp_literal ?_ ?_ .., writes_compareString isName quoted
        valueFormed.plain⟩
      · rw [quoted]
        exact hasColumn_quoted named valueFormed.noColumn
      · rw [quoted]
        simp [valueFormed.noUnderscore]
  | attr name =>
      obtain ⟨other, member, rfl⟩ := valueFormed
      have identifier := isIdent_of_isName (named other member)
      have same : (Atom.condition ⟨group, column, operator, .attr other.name⟩).value =
          other.name := doubleQuotes_of_notMem (not_mem_of_isIdent identifier (by decide))
      have isColumn : Column.isColumn
          (Atom.condition ⟨group, column, operator, .attr other.name⟩).value columns = true := by
        rw [same, Column.isColumn_eq_true]
        exact ⟨other, member, rfl⟩
      refine ⟨_, by rw [Condition.toCpp, if_pos isColumn], ?_⟩
      rw [same]
      refine writes_comparison isName written ?_ (spells_member .xt (named other member))
        (Cpp.breaks_ident (by decide) _)
        (Cpp.Parser.ReadsOperand.member Iter.xt.name other.name).readsSum
      rw [same]
      exact not_mem_of_isIdent identifier (by decide)
  | shifted name sign constant =>
      obtain ⟨⟨other, member, rfl⟩, noUnderscore⟩ := valueFormed
      have identifier := isIdent_of_isName (named other member)
      have absent (character : Char) (foreign : identRest character = false)
          (noSign : character ≠ '+' ∧ character ≠ '-') (noDigit : character.isDigit = false) :
          character ∉ other.name ++ sign.character :: numeral constant :=
        notMem_shifted (not_mem_of_isIdent identifier foreign) noSign noDigit sign constant
      have same : (Atom.condition
          ⟨group, column, operator, .shifted other.name sign constant⟩).value =
            other.name ++ sign.character :: numeral constant :=
        doubleQuotes_of_notMem (absent '\'' (by decide) (by decide) (by decide))
      refine ⟨_, Condition.toCpp_shifted named member noUnderscore same .., ?_⟩
      rw [same]
      refine writes_comparison isName written ?_
        (spells_shifted (named other member) sign constant) (breaks_numeral _)
        ((Cpp.Parser.ReadsOperand.member Iter.xt.name other.name).sum sign.isInfix
          sign.rank_binOp (.number _))
      rw [same]
      exact absent '"' (by decide) (by decide) (by decide)

end Translation

end MfQuery
