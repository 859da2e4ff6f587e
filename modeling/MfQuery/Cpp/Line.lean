import MfQuery.Cpp.Parser

/-!
# Reading lines of conditions

A line is a sequence of conditions joined by logical operators. No condition
contains a logical operator outside parentheses, so wherever it stands in a
line the machine reads it as one operand of the connectives around it, and the
line is read as the chain of its conditions.
-/

namespace MfQuery
namespace Cpp

open Text

namespace Parser

/-- The tokens are one operand, whatever surrounds them. -/
def ReadsOperand (tokens : List Token) (expr : Expr) : Prop :=
  ∀ context, run (.operand context) tokens = some (.after context expr)

theorem ReadsOperand.number (digits : Text) :
    ReadsOperand [.number digits] (.number digits) := fun _ => rfl

/-- The member of a row, as in `(*it)->column`. -/
def memberTokens (iterator column : Text) : List Token :=
  [.punct "(", .punct "*", .ident iterator, .punct ")", .punct "->", .ident column]

/-- The expression read from it. -/
def memberExpr (iterator column : Text) : Expr :=
  .arrow (.unary .deref (.var iterator)) column

theorem ReadsOperand.member (iterator column : Text) :
    ReadsOperand (memberTokens iterator column) (memberExpr iterator column) := fun _ => rfl

/-- A call without arguments of a member function. -/
theorem ReadsOperand.methodCall
    {tokens : List Token}
    {base : Expr}
    (reads : ReadsOperand tokens base)
    (method : Text) :
    ReadsOperand (tokens ++ [.punct ".", .ident method, .punct "(", .punct ")"])
      (.call (.dot base method)) := by
  intro context
  exact run_append_of_eq (reads context) rfl

/-- A call of a member function with a string literal. -/
theorem ReadsOperand.methodCallString
    {tokens : List Token}
    {base : Expr}
    (reads : ReadsOperand tokens base)
    (method body : Text) :
    ReadsOperand
      (tokens ++ [.punct ".", .ident method, .punct "(", .string body, .punct ")"])
      (.call (.supply (.dot base method) (.string body))) := by
  intro context
  exact run_append_of_eq (reads context) rfl

/-- The tokens are one operand of the logical operators around them: what
still waits behind them binds tighter than those. -/
def ReadsCondition (tokens : List Token) (expr : Expr) : Prop :=
  ∀ frames waiting, (∀ entry ∈ waiting, entry.2.rank ≤ 3) →
    ∃ inner pending operand,
      run (.operand ⟨frames, waiting, []⟩) tokens =
        some (.after ⟨frames, inner ++ waiting, pending⟩ operand) ∧
      (∀ entry ∈ inner, 3 < entry.2.rank) ∧
      Precedence.close .binary inner (applyPending pending operand) = expr

theorem ReadsOperand.readsCondition
    {tokens : List Token}
    {expr : Expr}
    (reads : ReadsOperand tokens expr) :
    ReadsCondition tokens expr :=
  fun _ _ _ => ⟨[], [], expr, reads _, by simp, rfl⟩

/-- What may stand on the right of a comparison: a sum at most, so nothing in
it is applied before the comparison waits. -/
def ReadsSum (tokens : List Token) (expr : Expr) : Prop :=
  ∀ frames waiting, (∀ entry ∈ waiting, entry.2.rank ≤ 5) →
    ∃ inner pending operand,
      run (.operand ⟨frames, waiting, []⟩) tokens =
        some (.after ⟨frames, inner ++ waiting, pending⟩ operand) ∧
      (∀ entry ∈ inner, 5 < entry.2.rank) ∧
      Precedence.close .binary inner (applyPending pending operand) = expr

theorem ReadsOperand.readsSum
    {tokens : List Token}
    {expr : Expr}
    (reads : ReadsOperand tokens expr) :
    ReadsSum tokens expr :=
  fun _ _ _ => ⟨[], [], expr, reads _, by simp, rfl⟩

/-- A negated operand. -/
theorem ReadsOperand.negated
    {tokens : List Token}
    {expr : Expr}
    (reads : ReadsOperand tokens expr) :
    ReadsSum (.punct "-" :: tokens) (.unary .neg expr) := by
  intro frames waiting _
  refine ⟨[], [.neg], expr, ?_, by simp, rfl⟩
  exact reads ⟨frames, waiting, [.neg]⟩

/-- The operator binds tighter than the waiting ones. -/
theorem not_binds_of_rank
    {waiting next : BinOp}
    (tighter : waiting.rank < next.rank) :
    waiting.binds next = false := by
  simp only [BinOp.binds, Bool.or_eq_false_iff, decide_eq_false_iff_not, Bool.and_eq_false_iff,
    beq_eq_false_iff_ne]
  omega

theorem binds_of_rank
    {waiting next : BinOp}
    (looser : next.rank < waiting.rank) :
    waiting.binds next = true := by
  simp [BinOp.binds, looser]

/-- An operator token and the operator it is in infix position. -/
def Infix (symbol : Text) (operator : BinOp) : Prop :=
  ∀ context operand, afterPunct context operand symbol =
    some (.operand (context.infixed operand operator))

/-- An infix operator behind an operand, binding tighter than what waits. -/
theorem run_infix
    {symbol : Text}
    {operator : BinOp}
    (spelled : Infix symbol operator)
    (frames : List Frame)
    {waiting : Waiting}
    (looser : ∀ entry ∈ waiting, entry.2.rank < operator.rank)
    {tokens : List Token}
    {expr : Expr}
    (reads : ReadsOperand tokens expr) :
    run (.operand ⟨frames, waiting, []⟩) (tokens ++ [.punct symbol]) =
      some (.operand ⟨frames, (expr, operator) :: waiting, []⟩) := by
  refine run_append_of_eq (reads _) ?_
  have pushed : Precedence.push .binary BinOp.binds waiting expr operator =
      (expr, operator) :: waiting :=
    Precedence.push_of_not_binds
      (fun entry member => not_binds_of_rank (looser entry member)) expr
  rw [run_cons, step, spelled]
  simp only [Context.infixed, applyPending, List.foldr_nil, pushed]
  rfl

/-- A comparison of an operand with a sum. -/
theorem ReadsOperand.compare
    {left right : List Token}
    {leftExpr rightExpr : Expr}
    {symbol : Text}
    {operator : BinOp}
    (spelled : Infix symbol operator)
    (comparison : operator.rank = 4 ∨ operator.rank = 5)
    (leftReads : ReadsOperand left leftExpr)
    (rightReads : ReadsSum right rightExpr) :
    ReadsCondition (left ++ .punct symbol :: right)
      (.binary operator leftExpr rightExpr) := by
  intro frames waiting logical
  have opened := run_infix spelled frames
    (fun entry member => by have := logical entry member; omega) leftReads
  obtain ⟨inner, pending, operand, ran, tight, result⟩ :=
    rightReads frames ((leftExpr, operator) :: waiting) (by
      intro entry member
      rcases List.mem_cons.mp member with rfl | later
      · simp only
        omega
      · have := logical entry later
        omega)
  refine ⟨inner ++ [(leftExpr, operator)], pending, operand, ?_, ?_, ?_⟩
  · have whole := run_append_of_eq opened ran
    simpa using whole
  · intro entry member
    rcases List.mem_append.mp member with inside | last
    · have := tight entry inside
      omega
    · rw [List.mem_singleton.mp last]
      simp only
      omega
  · rw [Precedence.close_append, result]
    rfl

/-- A sum or difference of two operands. -/
theorem ReadsOperand.sum
    {left right : List Token}
    {leftExpr rightExpr : Expr}
    {symbol : Text}
    {operator : BinOp}
    (spelled : Infix symbol operator)
    (additive : operator.rank = 6)
    (leftReads : ReadsOperand left leftExpr)
    (rightReads : ReadsOperand right rightExpr) :
    ReadsSum (left ++ .punct symbol :: right) (.binary operator leftExpr rightExpr) := by
  intro frames waiting looser
  have opened := run_infix spelled frames
    (fun entry member => by have := looser entry member; omega) leftReads
  refine ⟨[(leftExpr, operator)], [], rightExpr, ?_, ?_, rfl⟩
  · have whole := run_append_of_eq opened (rightReads _)
    simpa using whole
  · intro entry member
    rw [List.mem_singleton.mp member]
    simp only
    omega

/-- A logical operator behind a condition: everything of the condition is
applied. -/
theorem ReadsCondition.run_logical
    {tokens : List Token}
    {expr : Expr}
    (reads : ReadsCondition tokens expr)
    {symbol : Text}
    {operator : BinOp}
    (spelled : Infix symbol operator)
    (logical : operator.rank ≤ 3)
    {waiting : Waiting}
    (logicals : ∀ entry ∈ waiting, entry.2.rank ≤ 3) :
    run (.operand ⟨[], waiting, []⟩) (tokens ++ [.punct symbol]) =
      some (.operand ⟨[], Precedence.push .binary BinOp.binds waiting expr operator, []⟩) := by
  obtain ⟨inner, pending, operand, ran, tight, rfl⟩ := reads [] waiting logicals
  have tighter : ∀ entry ∈ inner, BinOp.binds entry.2 operator = true := by
    intro entry member
    have := tight entry member
    exact binds_of_rank (by omega)
  refine run_append_of_eq ran ?_
  rw [run_cons, step, spelled]
  simp only [Context.infixed, Precedence.push_append_of_binds tighter]
  rfl

/-- The end of the input behind a condition. -/
theorem ReadsCondition.finish
    {tokens : List Token}
    {expr : Expr}
    (reads : ReadsCondition tokens expr)
    {waiting : Waiting}
    (logicals : ∀ entry ∈ waiting, entry.2.rank ≤ 3) :
    (run (.operand ⟨[], waiting, []⟩) tokens).bind Parser.finish =
      some (Precedence.close .binary waiting expr) := by
  obtain ⟨inner, pending, operand, ran, -, rfl⟩ := reads [] waiting logicals
  rw [ran, ← Precedence.close_append]
  rfl

/-- A conjunction of two conditions in parentheses is one operand. -/
theorem ReadsCondition.conjunction
    {left right : List Token}
    {leftExpr rightExpr : Expr}
    (leftReads : ReadsCondition left leftExpr)
    (rightReads : ReadsCondition right rightExpr) :
    ReadsOperand (.punct "(" :: (left ++ .punct "&&" :: (right ++ [.punct ")"])))
      (.binary .and leftExpr rightExpr) := by
  intro context
  have opened : step (.operand context) (.punct "(") =
      some (.operand ⟨⟨.group, context.waiting, context.pending⟩ :: context.frames, [], []⟩) := rfl
  obtain ⟨inner, pending, operand, ran, tight, rfl⟩ :=
    leftReads (⟨.group, context.waiting, context.pending⟩ :: context.frames) [] (by simp)
  have tighter : ∀ entry ∈ inner, BinOp.binds entry.2 .and = true := by
    intro entry member
    have above : 3 < entry.2.rank := tight entry member
    apply binds_of_rank
    change 2 < entry.2.rank
    omega
  obtain ⟨later, laterPending, last, ranRight, -, rfl⟩ :=
    rightReads (⟨.group, context.waiting, context.pending⟩ :: context.frames)
      [(Precedence.close .binary inner (applyPending pending operand), .and)] (by
        intro entry member
        rw [List.mem_singleton.mp member]
        simp [BinOp.rank])
  rw [run_cons, opened, Option.bind_some]
  refine run_append_of_eq ran ?_
  have isInfix : Infix "&&" .and := fun _ _ => rfl
  have pushed : Precedence.push .binary BinOp.binds (inner ++ []) (applyPending pending operand)
      .and = [(Precedence.close .binary inner (applyPending pending operand), .and)] :=
    Precedence.push_append_of_binds tighter [] _
  rw [run_cons, step, isInfix, Option.bind_some, Context.infixed, pushed]
  refine run_append_of_eq ranRight ?_
  have closed := Precedence.close_append Expr.binary later
    [(Precedence.close .binary inner (applyPending pending operand), BinOp.and)]
    (applyPending laterPending last)
  have result := congrArg (fun expr => some (State.after context expr)) closed
  exact result

/-- Further arguments of a call, each the member of a row. -/
theorem run_memberArguments
    (iterator : Text)
    (columns : List Text)
    (callee operand : Expr)
    (context : Context) :
    run (.after (context.open (.arguments callee)) operand)
        (columns.flatMap (fun column => .punct "," :: memberTokens iterator column) ++
          [.punct ")"]) =
      some (.after context (.call (columns.foldl
        (fun function column => .supply function (memberExpr iterator column))
        (.supply callee operand)))) := by
  induction columns generalizing callee operand with
  | nil => rfl
  | cons column columns inductionHypothesis =>
      have later := inductionHypothesis (.supply callee operand) (memberExpr iterator column)
      rw [List.flatMap_cons, List.append_assoc]
      exact run_append_of_eq rfl later

end Parser

/-! ## Texts of lines -/

/-- The text spells a condition, and a space may follow it. -/
structure Writes (text : Text) (expr : Expr) : Prop where
  spells : ∃ tokens mode, Spells text tokens mode ∧ breaks mode ' ' ∧
    Parser.ReadsCondition tokens expr

/-- The word between two spaces is a logical operator. -/
structure LogicalWord (word : Text) (operator : BinOp) : Prop where
  logical : operator.rank ≤ 3
  spells : ∃ symbol, Spells (' ' :: (word ++ [' '])) [.punct symbol] .start ∧
    Parser.Infix symbol operator

/-- The conditions behind the first one, each behind its connective. -/
def lineTail (rest : List (Text × Text)) : Text :=
  rest.flatMap fun entry => ' ' :: (entry.1 ++ ' ' :: entry.2)

/-- A line is spelled and read from any stack of connectives on. -/
theorem spells_line
    {rest : List (Text × Text)}
    {exprs : List (BinOp × Expr)}
    (written : List.Forall₂ (fun entry expr =>
      LogicalWord entry.1 expr.1 ∧ Writes entry.2 expr.2) rest exprs)
    {first : Text}
    {expr : Expr}
    (writesFirst : Writes first expr)
    {waiting : Parser.Waiting}
    (logicals : ∀ entry ∈ waiting, entry.2.rank ≤ 3) :
    ∃ tokens mode, Spells (first ++ lineTail rest) tokens mode ∧
      (Parser.run (.operand ⟨[], waiting, []⟩) tokens).bind Parser.finish =
        some (Precedence.chain .binary BinOp.binds waiting expr exprs) := by
  induction written generalizing first expr waiting with
  | nil =>
      obtain ⟨tokens, mode, spelled, -, reads⟩ := writesFirst.spells
      refine ⟨tokens, mode, by simpa [lineTail] using spelled, reads.finish logicals⟩
  | @cons entry next rest exprs entries written inductionHypothesis =>
      obtain ⟨word, text⟩ := entry
      obtain ⟨operator, nextExpr⟩ := next
      obtain ⟨isLogical, writesNext⟩ := entries
      obtain ⟨tokens, mode, spelled, ends, reads⟩ := writesFirst.spells
      obtain ⟨symbol, wordSpelled, isInfix⟩ := isLogical.spells
      have pushed : ∀ entry ∈ Precedence.push .binary BinOp.binds waiting expr operator,
          entry.2.rank ≤ 3 := by
        intro entry member
        rcases List.mem_cons.mp member with rfl | below
        · exact isLogical.logical
        · exact logicals entry ((Precedence.reduce_suffix ..).subset below)
      obtain ⟨later, final, laterSpelled, laterRead⟩ := inductionHypothesis writesNext pushed
      refine ⟨tokens ++ ([.punct symbol] ++ later), final, ?_, ?_⟩
      · have behind := wordSpelled.append_start laterSpelled
        have whole := spelled.append ends behind
        simpa [lineTail] using whole
      · have stepped := reads.run_logical isInfix isLogical.logical logicals
        rw [← List.append_assoc, Parser.run_append, stepped]
        exact laterRead

/-- A line is read as the chain of its conditions. -/
theorem read_line
    {rest : List (Text × Text)}
    {exprs : List (BinOp × Expr)}
    (written : List.Forall₂ (fun entry expr =>
      LogicalWord entry.1 expr.1 ∧ Writes entry.2 expr.2) rest exprs)
    {first : Text}
    {expr : Expr}
    (writesFirst : Writes first expr) :
    read (first ++ lineTail rest) =
      some (Precedence.chain .binary BinOp.binds [] expr exprs) := by
  have nothing : ∀ entry ∈ ([] : Parser.Waiting), entry.2.rank ≤ 3 := by simp
  obtain ⟨tokens, mode, spelled, parsed⟩ := spells_line written writesFirst nothing
  rw [read_of_lex spelled.lex_eq]
  exact parsed

end Cpp
end MfQuery
