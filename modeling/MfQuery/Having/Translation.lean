import MfQuery.Having.Exact

/-!
# Translated HAVING conditions

`parse_having` translates a condition token by token, and the translated text
is read as the C++ tree over the same operands. Where the two precedence
tables agree and the exact evaluation is defined, the emitted condition has
the truth value of SQL and writes nothing.
-/

namespace MfQuery

open Text

/-! ## Reading the operands -/

/-- The field of the record at `pos`. -/
def placeExpr (k : Nat) (field : Text) : Cpp.Expr :=
  .arrow (.call (.supply (.arrow (.var (dataName k)) "at") (.var "pos"))) field

/-- The tokens in front of the field. -/
def recordTokens (k : Nat) : List Cpp.Token :=
  [.ident (dataName k), .punct "->", .ident "at", .punct "(", .ident "pos", .punct ")",
    .punct "->"]

/-- Its tokens. -/
def placeTokens (k : Nat) (field : Text) : List Cpp.Token := recordTokens k ++ [.ident field]

theorem readsOperand_place
    (k : Nat)
    (field : Text) :
    Cpp.Parser.ReadsOperand (placeTokens k field) (placeExpr k field) := fun _ => rfl

theorem spells_record (k : Nat) :
    Cpp.Spells ("data" ++ itoa k ++ "->at(pos)->") (recordTokens k) .start := by
  have vector := Cpp.Spells.name (isName_dataName k)
  have middle : Cpp.Spells ('-' :: (">at(pos)->" : Text))
      [.punct "->", .ident "at", .punct "(", .ident "pos", .punct ")", .punct "->"] .start :=
    .of_closed rfl
  have number : itoa k = numeral k := itoa_natCast k
  rw [number]
  exact vector.append (Cpp.breaks_ident (by decide : identRest '-' = false) _) middle

theorem spells_place
    {field : Text}
    (isName : Cpp.isName field = true)
    (k : Nat) :
    Cpp.Spells ("data" ++ itoa k ++ "->at(pos)->" ++ field) (placeTokens k field)
      (.ident field) :=
  (spells_record k).append_start (.name isName)

namespace HavingLeaf

/-- The operand in C++. -/
def cpp : HavingLeaf → Text
  | aggregate letterCase term => (term.aggregate letterCase).readText
  | constant value => integerText value

/-- The expression read from it. -/
def expr : HavingLeaf → Cpp.Expr
  | aggregate letterCase term =>
      let place := placeExpr term.group (term.aggregate letterCase).toVar
      if (term.aggregate letterCase).isAvg then .call (.dot place "value") else place
  | constant value => integerExpr value

/-- Its tokens. -/
def tokens : HavingLeaf → List Cpp.Token
  | aggregate letterCase term =>
      placeTokens term.group (term.aggregate letterCase).toVar ++
        if (term.aggregate letterCase).isAvg then
          [.punct ".", .ident "value", .punct "(", .punct ")"]
        else []
  | constant value =>
      if value < 0 then [.punct "-", .number (numeral value.natAbs)]
      else [.number (numeral value.natAbs)]

/-- Aggregates over a column of the table whose name has no underscore. -/
def Valid (columns : List Column) : HavingLeaf → Prop
  | aggregate _ term => (∃ column ∈ columns, column.name = term.column) ∧ '_' ∉ term.column ∧
      term.group < 2 ^ 31
  | constant _ => True

theorem readsPrefixed (leaf : HavingLeaf) :
    Cpp.Parser.ReadsPrefixed leaf.tokens leaf.expr := by
  cases leaf with
  | aggregate letterCase term =>
      have place := readsOperand_place term.group (term.aggregate letterCase).toVar
      simp only [tokens, expr]
      split_ifs
      · exact (place.methodCall "value").readsPrefixed
      · rw [List.append_nil]
        exact place.readsPrefixed
  | constant value =>
      have digits := Cpp.Parser.ReadsOperand.number (numeral value.natAbs)
      simp only [tokens, expr, integerExpr]
      split_ifs
      · exact digits.readsPrefixed_neg
      · exact digits.readsPrefixed

/-- Aggregates over an identifier without underscores. -/
def Written : HavingLeaf → Prop
  | aggregate _ term => isIdent term.column = true ∧ '_' ∉ term.column ∧ term.group < 2 ^ 31
  | constant _ => True

theorem isName_toVar
    {term : AggregateTerm}
    (identifier : isIdent term.column = true)
    (letterCase : LetterCase) :
    Cpp.isName (term.aggregate letterCase).toVar = true := by
  have present := List.length_pos_iff.mpr (ne_nil_of_isIdent identifier)
  have stem : isIdent (term.func.text letterCase ++ ['_']) = true ∧
      3 < (term.func.text letterCase ++ ['_']).length := by
    cases letterCase <;> cases term.func <;> decide
  have shape : (term.aggregate letterCase).toVar =
      (term.func.text letterCase ++ ['_']) ++ term.column := rfl
  rw [shape]
  apply isName_of_length
  · exact isIdent_append stem.1 fun character member => identRest_of_mem identifier member
  · rw [List.length_append]
    omega

/-- The operand is spelled as its tokens. -/
theorem spellsWord
    {leaf : HavingLeaf}
    (written : leaf.Written) :
    Cpp.SpellsWord leaf.cpp leaf.tokens := by
  cases leaf with
  | aggregate letterCase term =>
      have place := spells_place (isName_toVar written.1 letterCase) term.group
      have placeText : (term.aggregate letterCase).place = "data" ++ itoa term.group ++
          "->at(pos)->" ++ (term.aggregate letterCase).toVar := rfl
      simp only [cpp, tokens, Aggregate.readText, placeText]
      split_ifs
      · have behind : Cpp.Spells ".value()" [.punct ".", .ident "value", .punct "(", .punct ")"]
            (.punct ')') := .of_closed rfl
        exact ⟨_, place.append (Cpp.breaks_ident (by decide : identRest '.' = false) _) behind,
          rfl⟩
      · rw [List.append_nil, List.append_nil]
        exact ⟨_, place, Cpp.breaks_ident (by decide) _⟩
  | constant value =>
      simp only [cpp, tokens, integerText]
      split_ifs
      · exact ⟨_, spells_sign .minus _, Cpp.breaks_number (by decide) (by decide) _⟩
      · exact ⟨_, .numeral _, Cpp.breaks_number (by decide) (by decide) _⟩

variable {columns : List Column} (named : NamedColumns columns)
include named

theorem isIdent_column
    {term : AggregateTerm}
    (inTable : ∃ column ∈ columns, column.name = term.column) :
    isIdent term.column = true := by
  obtain ⟨column, member, isColumn⟩ := inTable
  rw [← isColumn]
  exact isIdent_of_isName (named column member)

theorem Valid.written
    {leaf : HavingLeaf}
    (valid : leaf.Valid columns) :
    leaf.Written := by
  cases leaf with
  | aggregate letterCase term => exact ⟨isIdent_column named valid.1, valid.2⟩
  | constant value => exact trivial

end HavingLeaf

/-! ## Evaluating the operands -/

/-- What a HAVING condition is evaluated in. -/
def havingEnv (cols : List Ct) (pos : Nat) : Env := ⟨cols, fun _ => none, some (pos : Int)⟩

theorem eval_place
    {pos : Nat}
    (pos_lt : pos < 2 ^ 31)
    {k : Nat}
    {group : Nat → List Record}
    {record : Record}
    (stored : (group k)[pos]? = some record)
    (cols : List Ct)
    (field : Text) :
    Cpp.eval (havingEnv cols pos) (placeExpr k field) group =
      some (.cell (record field) (some ⟨k, pos, field⟩), group) := by
  have inside : pos < (group k).length := (List.getElem?_eq_some_iff.mp stored).1
  have position : toSizeT (pos : Int) = pos := by
    unfold toSizeT
    omega
  have vector := Env.lookup_dataName (havingEnv cols pos) k
  have index : (havingEnv cols pos).lookup "pos" = some (.num false pos) := rfl
  simp only [placeExpr, Cpp.eval, vector, index, Option.map_some, Option.bind_some, Cpp.arrowVal,
    if_true, Cpp.supplyVal, Val.asNum, Cpp.callVal, position, inside, stored]

/-- C++ computes the operands. -/
theorem HavingLeaf.computes
    {pos : Nat}
    (pos_lt : pos < 2 ^ 31)
    (cols : List Ct)
    (group : Nat → List Record)
    (leaf : HavingLeaf) :
    Cpp.Computes (havingEnv cols pos) group leaf.expr (leaf.exactValue group pos) := by
  intro value exact
  cases leaf with
  | constant number =>
      simp only [exactValue, Option.ite_none_right_eq_some, Option.some.injEq] at exact
      obtain ⟨fits, rfl⟩ := exact
      exact ⟨_, eval_integer_eq fits _ _, rfl, rfl⟩
  | aggregate letterCase term =>
      obtain ⟨record, found, stored⟩ := Option.bind_eq_some_iff.mp exact
      have place := eval_place pos_lt found cols (term.aggregate letterCase).toVar
      unfold AggregateTerm.stored at stored
      simp only [HavingLeaf.expr]
      split at stored <;> cases stored
      next count sum isAvg content =>
          rw [isAvg, if_pos rfl]
          refine ⟨.num true (Value.avg count sum).average.asInt, ?_, rfl, rfl⟩
          simp only [Cpp.eval, place, content, Option.bind_some, Cpp.dotVal, if_true,
            Option.map_some, Cpp.callVal]
      next isAvg content =>
          rw [isAvg, if_pos rfl]
          refine ⟨.num true 0, ?_, rfl, rfl⟩
          simp only [Cpp.eval, place, content, Option.bind_some, Cpp.dotVal, if_true,
            Option.map_some, Cpp.callVal]
          rfl
      next isAvg content =>
          rw [isAvg, if_neg Bool.false_ne_true]
          rw [content] at place
          exact ⟨_, place, rfl, rfl⟩
      next isAvg content =>
          rw [isAvg, if_neg Bool.false_ne_true]
          rw [content] at place
          exact ⟨_, place, rfl, rfl⟩
      next isAvg content =>
          rw [isAvg, if_neg Bool.false_ne_true]
          rw [content] at place
          exact ⟨_, place, rfl, rfl⟩

theorem HavingLeaf.sqlGives
    (group : Nat → List Record)
    (pos : Nat)
    (leaf : HavingLeaf) :
    SqlGives (leaf.exactValue group pos) (leaf.sqlValue group pos) := by
  intro value exact
  cases leaf with
  | constant number =>
      simp only [exactValue, Option.ite_none_right_eq_some, Option.some.injEq] at exact
      obtain ⟨-, rfl⟩ := exact
      rfl
  | aggregate letterCase term =>
      have found : term.valueAt letterCase group pos = some value := exact
      rw [sqlValue, found]
      rfl

/-! ## Operators and parentheses -/

namespace HavingOp

/-- The punctuator the spelling of an operator stands for. -/
def symbol : HavingOp → Text
  | and => "&&"
  | or => "||"
  | operator => operator.text

theorem isInfix_symbol (operator : HavingOp) : Cpp.Parser.Infix operator.symbol operator.binOp := by
  intro context operand
  cases operator <;> rfl

theorem spellsWord_text (operator : HavingOp) :
    Cpp.SpellsWord operator.text [.punct operator.symbol] := by
  cases operator with
  | and => exact ⟨.ident "and", .of_closed rfl, Cpp.breaks_ident (by decide) _⟩
  | or => exact ⟨.ident "or", .of_closed rfl, Cpp.breaks_ident (by decide) _⟩
  | mul => exact ⟨.punct '*', .of_closed rfl, rfl⟩
  | div => exact ⟨.punct '/', .of_closed rfl, rfl⟩
  | add => exact ⟨.punct '+', .of_closed rfl, rfl⟩
  | sub => exact ⟨.punct '-', .of_closed rfl, rfl⟩
  | lt => exact ⟨.punct '<', .of_closed rfl, rfl⟩
  | gt => exact ⟨.punct '>', .of_closed rfl, rfl⟩
  | eq => exact ⟨.punct '=', .of_closed rfl, rfl⟩
  | le => exact ⟨.start, .of_closed rfl, rfl⟩
  | ge => exact ⟨.start, .of_closed rfl, rfl⟩
  | ne => exact ⟨.start, .of_closed rfl, rfl⟩

end HavingOp

theorem spellsWord_opening : Cpp.SpellsWord "(" [.punct "("] :=
  ⟨.punct '(', .of_closed rfl, rfl⟩

theorem spellsWord_closing : Cpp.SpellsWord ")" [.punct ")"] :=
  ⟨.punct ')', .of_closed rfl, rfl⟩

/-! ## The translated condition -/

namespace HavingFormula

/-- The condition in C++. -/
def cpp (formula : HavingFormula) : Text :=
  joinWith ' ' (formula.pieces HavingLeaf.cpp HavingOp.text "(" ")")

/-- The tree C++ reads from it. -/
def expr (formula : HavingFormula) : Cpp.Expr :=
  formula.fold HavingLeaf.expr (fun operator => .binary operator.binOp) HavingOp.cppBinds []

/-- Its operands are valid. -/
def Valid (columns : List Column) (formula : HavingFormula) : Prop :=
  formula.All (fun _ => True) (HavingLeaf.Valid columns)

/-- Its operands are written with identifiers. -/
def Written (formula : HavingFormula) : Prop := formula.All (fun _ => True) HavingLeaf.Written

variable {formula : HavingFormula}

theorem Valid.written
    {columns : List Column}
    (named : NamedColumns columns)
    (valid : formula.Valid columns) :
    formula.Written :=
  Precedence.Formula.All.imp (fun _ leafValid => leafValid.written named) valid

theorem read_cpp
    (written : formula.Written) :
    Cpp.read formula.cpp = some formula.expr := by
  have words := Precedence.Formula.forall₂_pieces
    (fun leaf leafWritten => HavingLeaf.spellsWord leafWritten)
    (fun operator _ => operator.spellsWord_text) spellsWord_opening spellsWord_closing written
  have present := formula.pieces_ne_nil HavingLeaf.cpp HavingOp.text "(" ")"
  obtain ⟨mode, spells, -⟩ := Cpp.spells_joinWith words present
  have leaves : ∀ leaf : HavingLeaf, leaf.Written →
      Cpp.Parser.ReadsPrefixed leaf.tokens leaf.expr := fun leaf _ => leaf.readsPrefixed
  have operators : ∀ operator : HavingOp, True →
      Cpp.Parser.Infix operator.symbol operator.binOp := fun operator _ => operator.isInfix_symbol
  have reads := Cpp.Parser.readsWhole_formula leaves operators written []
  rw [Cpp.read, Option.bind_eq_bind, cpp, spells.lex_eq]
  exact reads.parse_eq

end HavingFormula

/-! ## `parse_having` on a condition -/

/-- A visible token without spaces. -/
def Visible (token : Text) : Prop :=
  ' ' ∉ token ∧ ∃ character ∈ token, isBlank character = false

/-- A token that `parse_having` translates. -/
def HavingTranslates (columns : List Column) (token translated : Text) : Prop :=
  Visible token ∧ ScanGenerator.havingToken columns token = some translated

/-- A token that names neither an aggregate nor a column is kept. -/
theorem havingToken_self
    {columns : List Column}
    {token : Text}
    (noUnderscore : '_' ∉ token)
    (noColumn : Column.isColumn token columns = false) :
    ScanGenerator.havingToken columns token = some token := by
  have notAggregate : ¬Aggregate.isAggregate token = true := by
    rwa [Aggregate.isAggregate_eq_true]
  rw [ScanGenerator.havingToken, if_neg notAggregate, noColumn, if_neg Bool.false_ne_true]

section Tokens

variable {columns : List Column} (named : NamedColumns columns)
include named

/-- Operators and parentheses are no names. -/
theorem havingTranslates_symbol
    {token : Text}
    (noUnderscore : '_' ∉ token)
    (noName : Cpp.isName token = false)
    (visible : Visible token) :
    HavingTranslates columns token token := by
  have noColumn : Column.isColumn token columns = false := by
    rw [Bool.eq_false_iff, Ne, Column.isColumn_eq_true]
    rintro ⟨column, member, rfl⟩
    rw [named column member] at noName
    cases noName
  exact ⟨visible, havingToken_self noUnderscore noColumn⟩

theorem havingTranslates_integer (value : Int) :
    HavingTranslates columns (integerText value) (integerText value) := by
  have noColumn : Column.isColumn (integerText value) columns = false := by
    rw [Bool.eq_false_iff]
    intro isColumn
    have inside := Column.hasColumn_of_isColumn isColumn
    rw [hasColumn_integerText named value] at inside
    cases inside
  obtain ⟨first, rest, shape⟩ := List.exists_cons_of_ne_nil (integerText_ne_nil value)
  have member : first ∈ integerText value := shape ▸ List.mem_cons_self ..
  have visible : isBlank first = false := by
    rcases mem_integerText member with digit | rfl
    · exact isBlank_eq_false_of_isDigit _ digit
    · decide
  exact ⟨⟨notMem_integerText (by decide) (by decide) value, first, member, visible⟩,
    havingToken_self (notMem_integerText (by decide) (by decide) value) noColumn⟩

theorem HavingLeaf.translates
    {leaf : HavingLeaf}
    (written : leaf.Written) :
    HavingTranslates columns leaf.text leaf.cpp := by
  cases leaf with
  | constant value => exact havingTranslates_integer named value
  | aggregate letterCase term =>
      obtain ⟨identifier, plain, small⟩ := written
      have read := term.ofText_text identifier letterCase plain small
      refine ⟨⟨term.notMem_text identifier letterCase (by decide), '_',
        term.underscore_mem_text letterCase, by decide⟩, ?_⟩
      rw [HavingLeaf.text, ScanGenerator.havingToken, if_pos (term.isAggregate_text letterCase),
        read]
      rfl

theorem HavingOp.translates (operator : HavingOp) :
    HavingTranslates columns operator.text operator.text := by
  have visible : (operator.text.any fun character => !isBlank character) = true := by
    cases operator <;> decide
  apply havingTranslates_symbol named
  · cases operator <;> decide
  · cases operator <;> decide
  · exact ⟨by cases operator <;> decide, by simpa using visible⟩

/-- `parse_having` translates a written condition. -/
theorem HavingFormula.parseHaving_eq
    {formula : HavingFormula}
    (isWritten : formula.Written)
    {generator : ScanGenerator}
    (ofTable : generator.columns = columns)
    (written : generator.having = formula.text) :
    generator.parseHaving = some formula.cpp := by
  have opening : HavingTranslates columns "(" "(" := havingTranslates_symbol named (by decide)
    (by decide) ⟨by decide, '(', by decide, by decide⟩
  have closing : HavingTranslates columns ")" ")" := havingTranslates_symbol named (by decide)
    (by decide) ⟨by decide, ')', by decide, by decide⟩
  have translates := Precedence.Formula.forall₂_pieces
    (fun leaf leafWritten => HavingLeaf.translates named leafWritten)
    (fun operator _ => operator.translates named) opening closing isWritten
  obtain ⟨visible, translated⟩ := (List.forall₂_and_left _ _).mp translates
  have present := formula.pieces_ne_nil HavingLeaf.text HavingOp.text "(" ")"
  have nonempty : ∀ token ∈ formula.pieces HavingLeaf.text HavingOp.text "(" ")", token ≠ [] := by
    intro token member
    obtain ⟨-, character, inside, -⟩ := visible token member
    exact List.ne_nil_of_mem inside
  have fields : Fields ' ' (formula.pieces HavingLeaf.text HavingOp.text "(" ")") :=
    { nonempty := nonempty
      free := fun token member => (visible token member).1
      visible := fun last isLast => (visible last (List.mem_of_getLast? isLast)).2 }
  have exploded := cExplode_join ' ' _ present fields
  have long : ¬formula.text.length < 1 := by
    obtain ⟨first, rest, shape⟩ := List.exists_cons_of_ne_nil present
    have inside := nonempty first (shape ▸ List.mem_cons_self ..)
    have joined := List.length_pos_iff.mpr (joinWith_ne_nil ' ' rest inside)
    rw [HavingFormula.text, shape]
    omega
  rw [ScanGenerator.parseHaving, written, if_neg long, HavingFormula.text, exploded, ofTable]
  simp only [Option.bind_eq_bind, Option.bind_some, mapM_eq_some_of_forall₂ translated]
  rfl

end Tokens

/-! ## The meaning of the emitted condition -/

namespace HavingFormula

/-- Both precedence tables build the same tree. -/
def TablesAgree (formula : HavingFormula) : Prop :=
  formula.Agree HavingOp.sqlRank HavingOp.sqlBinds HavingOp.cppBinds fun _ => False

/-- The condition has an exact truth value at a position. -/
def ExactAt (formula : HavingFormula) (group : Nat → List Record) (pos : Nat) : Prop :=
  ((formula.exact group pos).bind Exact.truth).isSome = true

variable {columns : List Column} {formula : HavingFormula}
  (valid : formula.Valid columns)
include valid

theorem expr_eq
    (agree : formula.TablesAgree) :
    formula.expr =
      formula.fold HavingLeaf.expr (fun operator => .binary operator.binOp) HavingOp.sqlBinds [] := by
  symm
  apply Precedence.Formula.fold_congr _ valid agree .nil (by simp)
  intro waiting next _ _ notBound
  simpa [HavingOp.sqlBinds] using notBound

theorem computes_expr
    (agree : formula.TablesAgree)
    {pos : Nat}
    (pos_lt : pos < 2 ^ 31)
    (cols : List Ct)
    (group : Nat → List Record) :
    Cpp.Computes (havingEnv cols pos) group formula.expr (formula.exact group pos) := by
  rw [expr_eq valid agree]
  exact Precedence.Formula.related_fold
    (fun leaf _ => leaf.computes pos_lt cols group)
    (fun operator _ _ _ _ _ left right => operator.computes_node left right)
    HavingOp.sqlBinds valid .nil

theorem sqlGives_exact
    (group : Nat → List Record)
    (pos : Nat) :
    SqlGives (formula.exact group pos)
      (formula.fold (HavingLeaf.sqlValue group pos) HavingOp.sqlNode HavingOp.sqlBinds []) :=
  Precedence.Formula.related_fold
    (fun leaf _ => leaf.sqlGives group pos)
    (fun operator _ _ _ _ _ left right => operator.sqlGives_node left right)
    HavingOp.sqlBinds valid .nil

end HavingFormula

/-- Where both precedence tables build the same tree and the exact evaluation
at `pos` is defined, the emitted condition has the truth value of SQL and
leaves the groups as they are. -/
theorem having_keeps_meaning
    (generator : ScanGenerator)
    (formula : HavingFormula)
    (named : NamedColumns generator.columns)
    (valid : formula.Valid generator.columns)
    (written : generator.having = formula.text)
    (cols : List Ct)
    (group : Nat → List Record)
    (pos : Nat)
    (pos_lt : pos < 2 ^ 31)
    (agree : formula.TablesAgree)
    (exact : formula.ExactAt group pos) :
    ∃ text, generator.parseHaving = some text ∧
      cppHaving cols text pos group = some (formula.sqlHolds group pos, group) := by
  obtain ⟨truth, isTruth⟩ := Option.isSome_iff_exists.mp exact
  obtain ⟨value, isValue, valueTruth⟩ := Option.bind_eq_some_iff.mp isTruth
  have sql := formula.sqlGives_exact valid group pos value isValue
  have holds : formula.sqlHolds group pos = truth := by
    rw [HavingFormula.sqlHolds, sql, Exact.truth_toSql valueTruth]
    rfl
  obtain ⟨val, evaluated, matching⟩ := formula.computes_expr valid agree pos_lt cols group value
    isValue
  have isWritten := HavingFormula.Valid.written named valid
  refine ⟨formula.cpp, formula.parseHaving_eq named isWritten rfl written, ?_⟩
  have read := formula.read_cpp isWritten
  rw [holds, cppHaving, Cpp.condition, read, Option.bind_some]
  rw [havingEnv] at evaluated
  have valTruth := matching.truth_eq valueTruth
  rw [evaluated, Option.bind_some]
  simp only [valTruth, Option.map_some]

/-- `( 1_sum_quant / 2 > count_quant ) and 1_sum_quant != 3`. -/
def halfCondition : HavingFormula :=
  .parenThen
    (.leafThen (.aggregate .lower ⟨some 1, .sum, "quant"⟩) .div
      (.leafThen (.constant 2) .gt (.leaf (.aggregate .lower ⟨none, .count, "quant"⟩))))
    .and
    (.leafThen (.aggregate .lower ⟨some 1, .sum, "quant"⟩) .ne (.leaf (.constant 3)))

/-- A single record in every group: two sales, with a sum of ten. -/
def saleGroups : Nat → List Record := fun _ =>
  [fun field => if field = "count_quant".toList then .int 2 else .int 10]

/-- On two sales with a sum of ten the condition is kept. -/
theorem having_keeps_meaning_half :
    halfCondition.text = "( 1_sum_quant / 2 > count_quant ) and 1_sum_quant != 3".toList ∧
      ∃ text, { saleGenerator false with having := halfCondition.text }.parseHaving = some text ∧
        cppHaving [] text 0 saleGroups = some (true, saleGroups) := by
  refine ⟨by decide, ?_⟩
  have holds : halfCondition.sqlHolds saleGroups 0 = true := by decide +kernel
  have inTable : ∃ column ∈ saleColumns, column.name = "quant".toList := by decide
  have sum : (HavingLeaf.aggregate .lower ⟨some 1, .sum, "quant"⟩).Valid saleColumns :=
    ⟨inTable, by decide, by decide⟩
  have count : (HavingLeaf.aggregate .lower ⟨none, .count, "quant"⟩).Valid saleColumns :=
    ⟨inTable, by decide, by decide⟩
  have valid : halfCondition.Valid saleColumns :=
    ⟨⟨sum, trivial, trivial, trivial, count⟩, trivial, sum, trivial, trivial⟩
  have agree : halfCondition.TablesAgree := by
    refine ⟨⟨fun _ waiting => waiting.elim, ?_, trivial⟩, fun _ waiting => waiting.elim, ?_, trivial⟩
    · rintro other (rfl | ⟨waiting, -⟩)
      · rfl
      · exact waiting.elim
    · rintro other (rfl | ⟨waiting, -⟩)
      · rfl
      · exact waiting.elim
  have exact : ((halfCondition.exact saleGroups 0).bind Exact.truth).isSome = true := by
    decide +kernel
  rw [← holds]
  exact having_keeps_meaning { saleGenerator false with having := halfCondition.text } halfCondition
    namedColumns_saleColumns valid rfl [] saleGroups 0 (by decide) agree exact

/-- `2_count_prod = 1_count_prod / 2`. -/
def medianCondition : HavingFormula :=
  .leafThen (.aggregate .lower ⟨some 2, .count, "prod"⟩) .eq
    (.leafThen (.aggregate .lower ⟨some 1, .count, "prod"⟩) .div (.leaf (.constant 2)))

/-- Its scan generator, over products and quantities. -/
def medianGenerator : ScanGenerator where
  noGroupingVars := 2
  columns := [⟨"prod", .varchar⟩, ⟨"quant", .int⟩]
  selectColumns := ["prod".toList, "quant".toList]
  selectAggregates := []
  allAggregates := [⟨2, "count", "prod"⟩, ⟨1, "count", "prod"⟩]
  selectConditions := [⟨[⟨1, "prod", "=", "prod"⟩], []⟩,
    ⟨[⟨2, "prod", "=", "prod"⟩, ⟨2, "quant", "<", "quant"⟩], ["and"]⟩]
  having := "2_count_prod = 1_count_prod / 2"
  groupingAttr := ["prod".toList, "quant".toList]
  emf := true

/-- Ten sales of the product, three of them below the quantity. -/
def medianGroups : Nat → List Record := fun k =>
  [fun _ => if k = 2 then .int 3 else .int 10]

/-- The condition is false in SQL, since three is not the half of ten. Its
translation is true and stores five. -/
theorem equality_assigns :
    medianGenerator.having = medianCondition.text ∧
      medianCondition.sqlHolds medianGroups 0 = false ∧
      (medianGroups 2).map (fun record => record "count_prod") = [.int 3] ∧
      (medianGenerator.parseHaving.bind fun text => cppHaving [] text 0 medianGroups).map
          (fun result => (result.1, (result.2 2).map fun record => record "count_prod")) =
        some (true, [.int 5]) := by
  refine ⟨by decide, by decide +kernel, by decide, by decide +kernel⟩

end MfQuery
