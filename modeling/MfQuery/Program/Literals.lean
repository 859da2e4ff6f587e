import MfQuery.Program.Operators

/-!
# String literals in emitted guards

Whether the value of an atom is a literal is guessed from its text before its
quotes are looked at. A quoted text with an underscore is taken for an
aggregate, and one with a column name inside for a column expression, so the
guard refers to a lookup or to the other row variable. Only the remaining
literals are compared as such.
-/

namespace MfQuery

open Text

/-- The name a token is, if it is one. -/
def Cpp.Token.name? : Cpp.Token → Option Text
  | .ident name => some name
  | _ => none

/-- The names a token sequence uses, in order. -/
def Cpp.names (tokens : List Cpp.Token) : List Text := tokens.filterMap Cpp.Token.name?

@[simp] theorem Cpp.names_append
    (first second : List Cpp.Token) :
    Cpp.names (first ++ second) = Cpp.names first ++ Cpp.names second := by
  simp [Cpp.names]

/-- The guard compares the column of the row with the literal: the row, the
column and `compare` are the only names in it, and on every row it tests
whether the column holds the literal. -/
structure ComparesLiteral (guard column text : Text) : Prop where
  names : (Cpp.lex guard).map Cpp.names = some [("it" : Text), column, "compare"]
  meaning : ∀ (env : Env) (row : Row) (vectors : Nat → List Record) (content : Text),
    env.rows .it = some row → row column = .str content →
      Cpp.condition env guard vectors = some (decide (content = text), vectors)

/-! ## Names of the translations -/

/-- Lexing does not take back the tokens it has completed. -/
theorem Cpp.lex_append_prefix
    {first rest : Text}
    {completed tokens : List Cpp.Token}
    {mode : Cpp.Mode}
    (ran : Cpp.run .start first = some (completed, mode))
    (lexed : Cpp.lex (first ++ rest) = some tokens) :
    completed <+: tokens := by
  simp only [Cpp.lex, Cpp.run_append, ran, Option.bind_eq_bind, Option.bind_some,
    Option.pure_def, Option.bind_eq_some_iff, Option.some.injEq] at lexed
  obtain ⟨⟨all, final⟩, ⟨⟨later, last⟩, -, equal⟩, pending, -, rfl⟩ := lexed
  cases equal
  exact ⟨later ++ pending, by simp⟩

/-- The tokens of the left-hand side of a translation. -/
def operandTokens (column : Text) : List Cpp.Token :=
  Cpp.Parser.memberTokens Iter.it.name column ++
    if contains column "avg" then [.punct ".", .ident "value", .punct "(", .punct ")"] else []

theorem names_operandTokens (column : Text) :
    Cpp.names (operandTokens column) =
      [("it" : Text), column] ++ if contains column "avg" then [("value" : Text)] else [] := by
  unfold operandTokens
  split_ifs <;> rfl

theorem spells_operandTokens
    {condition : Condition}
    (isName : Cpp.isName condition.column = true) :
    ∃ mode, Cpp.Spells (condition.operand "(*it)") (operandTokens condition.column) mode ∧
      Cpp.breaks mode '.' := by
  have member := spells_member .it isName
  have ends : Cpp.breaks (.ident condition.column) '.' := Cpp.breaks_ident rfl _
  unfold Condition.operand operandTokens
  split_ifs with average
  · have behind : Cpp.Spells ".value()" [.punct ".", .ident "value", .punct "(", .punct ")"]
        (.punct ')') := .of_closed rfl
    exact ⟨_, member.append ends behind, rfl⟩
  · refine ⟨.ident condition.column, ?_, ends⟩
    rw [List.append_nil, List.append_nil]
    exact member

/-- The names of a comparison with a quoted text that has further tokens in
front of it. -/
theorem names_compareWith
    {condition : Condition}
    {text front : Text}
    {frontTokens : List Cpp.Token}
    (isName : Cpp.isName condition.column = true)
    (quoted : condition.value = '"' :: (text ++ ['"']))
    (spelled : Cpp.Spells (front ++ condition.value) (frontTokens ++ [.string text]) .start)
    (ends : ∀ first ∈ (front ++ condition.value).head?, Cpp.breaks (.punct '(') first) :
    (Cpp.lex (condition.compareWith (condition.operand "(*it)")
        (front ++ condition.value))).map Cpp.names =
      some (Cpp.names (operandTokens condition.column) ++ ("compare" : Text) ::
        Cpp.names frontTokens) := by
  obtain ⟨leftMode, leftSpelled, leftEnds⟩ := spells_operandTokens isName
  have hasQuote : contains condition.value "\"" = true := by
    rw [contains_eq_true, quoted]
    exact ⟨[], text ++ ['"'], rfl⟩
  have opening : Cpp.Spells ('.' :: ("compare(" : Text))
      [.punct ".", .ident "compare", .punct "("] (.punct '(') := .of_closed rfl
  have closing : Cpp.Spells ") == 0" [.punct ")", .punct "==", .number "0"] (.number "0") :=
    .of_closed rfl
  have inner := spelled.append_start closing
  have shape : front ++ condition.value ≠ [] := by simp [quoted]
  obtain ⟨first, rest, equal⟩ := List.exists_cons_of_ne_nil shape
  rw [equal] at inner ends ⊢
  have behind := opening.append (ends first rfl) inner
  have whole := leftSpelled.append leftEnds behind
  have split : (".compare(" : Text) = '.' :: ("compare(" : Text) := rfl
  have lexed : Cpp.lex (condition.compareWith (condition.operand "(*it)") (first :: rest)) =
      some (operandTokens condition.column ++
        ([.punct ".", .ident "compare", .punct "("] ++
          (frontTokens ++ [.string text] ++ [.punct ")", .punct "==", .number "0"]))) := by
    rw [Condition.compareWith, if_pos hasQuote, split]
    refine Eq.trans ?_ whole.lex_eq
    simp only [List.append_eq, List.append_assoc, List.cons_append]
  have before : Cpp.names [.punct ".", .ident "compare", .punct "("] = [("compare" : Text)] := rfl
  have literal : Cpp.names [.string text] = [] := rfl
  have after : Cpp.names [.punct ")", .punct "==", .number "0"] = [] := rfl
  rw [lexed, Option.map_some]
  simp only [Cpp.names_append, before, literal, after, List.append_nil, List.singleton_append]

/-! ## The three readings of a quoted text -/

section Quoted

variable {columns : List Column} {groupingAttr : List Text} {group : Nat} {column text : Text}

/-- The value of the condition keeps the text between double quotes. -/
theorem Atom.condition_value_str
    (unquoted : '\'' ∉ text)
    (group : Nat)
    (column : Text)
    (operator : CmpOp) :
    (Atom.mk group column operator (.str text)).condition.value = '"' :: (text ++ ['"']) := by
  have inner := doubleQuotes_of_notMem unquoted
  simp only [doubleQuotes] at inner
  simp [Atom.condition, AtomValue.text, doubleQuotes, inner]

/-- A column inside the text is a column inside the quoted text. -/
theorem hasColumn_quoted_iff
    (named : NamedColumns columns) :
    Column.hasColumn ('"' :: (text ++ ['"'])) columns = Column.hasColumn text columns := by
  cases inside : Column.hasColumn text columns with
  | false => exact hasColumn_quoted named inside
  | true =>
      rw [Column.hasColumn_eq_true] at inside ⊢
      obtain ⟨other, member, part⟩ := inside
      refine ⟨other, member, part.trans ?_⟩
      exact ⟨['"'], ['"'], rfl⟩

/-- The first piece of an exploded text begins with what the loop has passed. -/
theorem prefix_head_cExplodeLoop
    (quan : Char)
    (passed subject : Text) :
    ∀ field ∈ (cExplodeLoop quan passed subject).head?, passed <+: field := by
  fun_induction cExplodeLoop quan passed subject with
  | case1 passed next rest inductionHypothesis => simp
  | case2 passed current next rest different inductionHypothesis =>
      intro field member
      exact (List.prefix_append _ _).trans (inductionHypothesis field member)
  | case3 passed current visible => simp
  | case4 passed current blank => simp
  | case5 passed visible => simp
  | case6 passed blank => simp

/-- A number does not begin with a quote. -/
theorem atoi_quote (rest : Text) : atoi ('"' :: rest) = 0 := by
  have visible : ('"').isWhitespace = false := by decide
  have noDigit : ('"').isDigit = false := by decide
  simp [atoi, readSigned, visible, noDigit]

/-- A quoted text names no group. -/
theorem Aggregate.group_of_quoted
    {aggregate : Aggregate}
    (parsed : Aggregate.ofText ('"' :: text) = some aggregate) :
    aggregate.group = 0 := by
  unfold Aggregate.ofText at parsed
  split at parsed
  next first func name exploded =>
      cases parsed
      cases text with
      | nil =>
          simp only [cExplode, cExplodeLoop, reduceCtorEq, if_false, Option.some.injEq] at exploded
          split_ifs at exploded
          cases exploded
      | cons next rest =>
          have loop : cExplodeLoop '_' ['"'] (next :: rest) = [first, func, name] := by
            simpa [cExplode, cExplodeLoop] using exploded
          have head := prefix_head_cExplodeLoop '_' ['"'] (next :: rest) first (by simp [loop])
          obtain ⟨later, rfl⟩ := head
          exact atoi_quote later
  next => cases parsed; rfl
  next => cases parsed

/-- The aggregate branch begins with a lookup. -/
theorem Condition.prefix_aggregateCpp
    (condition : Condition)
    (var : Text)
    (groupingAttr : List Text)
    (aggregate : Aggregate) :
    ("(" ++ ("vfind" ++ itoa aggregate.group ++ "(data") : Text) <+:
      condition.aggregateCpp var groupingAttr aggregate := by
  have regroup (opening stem number data keys close test comparison : Text) :
      (opening ++ (stem ++ number ++ data)) ++
          (number ++ keys ++ close ++ test ++ comparison ++ close) =
        opening ++ (stem ++ number ++ data ++ number ++ keys ++ close) ++ test ++ comparison ++
          close := by
    simp only [List.append_assoc]
  exact ⟨_, regroup ..⟩

/-- A quoted text with an underscore becomes a lookup. -/
theorem not_comparesLiteral_of_underscore
    (named : NamedColumns columns)
    {condition : Condition}
    (quoted : condition.value = '"' :: (text ++ ['"']))
    (underscore : '_' ∈ text)
    {guard : Text}
    (translated : condition.toCpp "(*it)" "(*xt)" groupingAttr columns = some guard) :
    ¬ComparesLiteral guard column text := by
  have notColumn : Column.isColumn condition.value columns = false :=
    isColumn_eq_false_of_mem named (by decide : identRest '"' = false) (by simp [quoted])
  have isAggregate : Aggregate.isAggregate condition.value = true := by
    simp [quoted, underscore]
  rw [Condition.toCpp, notColumn, if_neg Bool.false_ne_true, if_pos isAggregate,
    Option.map_eq_some_iff] at translated
  obtain ⟨aggregate, parsed, rfl⟩ := translated
  rw [quoted] at parsed
  have groupZero := Aggregate.group_of_quoted parsed
  intro compares
  have names := compares.names
  rw [Option.map_eq_some_iff] at names
  obtain ⟨tokens, lexed, names⟩ := names
  have opening : Cpp.run .start ("(" ++ ("vfind" ++ itoa 0 ++ "(data") : Text) =
      some ([.punct "(", .ident "vfind0", .punct "("], .ident "data") := by decide
  -- the lookup's name is the second token
  have front := condition.prefix_aggregateCpp "(*it)" groupingAttr aggregate
  rw [groupZero] at front
  obtain ⟨rest, shape⟩ := front
  rw [← shape] at lexed
  obtain ⟨later, rfl⟩ := Cpp.lex_append_prefix opening lexed
  rw [Cpp.names_append] at names
  have first := congrArg List.head? names
  have different : some ("vfind0" : Text) ≠ some ("it" : Text) := by decide
  exact different first

/-- A quoted text with a column name inside becomes a column expression of the
other row variable. -/
theorem names_quoted
    (named : NamedColumns columns)
    {condition : Condition}
    (isName : Cpp.isName condition.column = true)
    (quoted : condition.value = '"' :: (text ++ ['"']))
    (plain : ∀ character ∈ text, Cpp.plainInString character = true)
    (noUnderscore : '_' ∉ text)
    {guard : Text}
    (translated : condition.toCpp "(*it)" "(*xt)" groupingAttr columns = some guard) :
    (Cpp.lex guard).map Cpp.names =
      some (Cpp.names (operandTokens condition.column) ++ ("compare" : Text) ::
        if Column.hasColumn text columns then [("xt" : Text)] else []) := by
  have notColumn : Column.isColumn condition.value columns = false :=
    isColumn_eq_false_of_mem named (by decide : identRest '"' = false) (by simp [quoted])
  have notAggregate : Aggregate.isAggregate condition.value = false :=
    isAggregate_eq_false (by simp [quoted, noUnderscore])
  have inside : Column.hasColumn condition.value columns = Column.hasColumn text columns := by
    rw [quoted, hasColumn_quoted_iff named]
  have literal := Cpp.Spells.quoted plain
  rw [Condition.toCpp, notColumn, if_neg Bool.false_ne_true, notAggregate,
    if_neg Bool.false_ne_true, inside] at translated
  split_ifs at translated ⊢
  · cases translated
    have front : Cpp.Spells ("(*xt)" ++ "->" : Text)
        [.punct "(", .punct "*", .ident "xt", .punct ")", .punct "->"] .start := .of_closed rfl
    have spelled := front.append_start literal
    rw [← quoted] at spelled
    apply names_compareWith isName quoted spelled
    intro first member
    cases member
    rfl
  · cases translated
    have spelled : Cpp.Spells ([] ++ condition.value) ([] ++ [.string text]) .start := by
      rw [quoted]
      exact literal
    apply names_compareWith isName quoted spelled
    intro first member
    rw [quoted] at member
    cases member
    rfl

end Quoted

end MfQuery
