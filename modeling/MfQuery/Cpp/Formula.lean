import MfQuery.Cpp.Line
import MfQuery.Lib.Formula
import MfQuery.Str

/-!
# Reading formulas

A formula written with spaces between its pieces is lexed piece by piece, and
the parser builds from it the tree of the C++ precedence table: parentheses
suspend the level around them and come back as one operand.
-/

namespace MfQuery
namespace Cpp

open Text

namespace Parser

/-- The tokens are one operand, possibly behind prefix operators. -/
def ReadsPrefixed (tokens : List Token) (expr : Expr) : Prop :=
  ∀ frames waiting, ∃ pending operand,
    run (.operand ⟨frames, waiting, []⟩) tokens =
      some (.after ⟨frames, waiting, pending⟩ operand) ∧
    applyPending pending operand = expr

theorem ReadsOperand.readsPrefixed
    {tokens : List Token}
    {expr : Expr}
    (reads : ReadsOperand tokens expr) :
    ReadsPrefixed tokens expr :=
  fun _ _ => ⟨[], expr, reads _, rfl⟩

theorem ReadsOperand.readsPrefixed_neg
    {tokens : List Token}
    {expr : Expr}
    (reads : ReadsOperand tokens expr) :
    ReadsPrefixed (.punct "-" :: tokens) (.unary .neg expr) :=
  fun frames waiting => ⟨[.neg], expr, reads ⟨frames, waiting, [.neg]⟩, rfl⟩

/-- The tokens are the rest of an expression behind some waiting operands. -/
def ReadsWhole (tokens : List Token) (waiting : Waiting) (expr : Expr) : Prop :=
  ∀ frames, ∃ inner pending operand,
    run (.operand ⟨frames, waiting, []⟩) tokens =
      some (.after ⟨frames, inner, pending⟩ operand) ∧
    Precedence.close .binary inner (applyPending pending operand) = expr

/-- A single operand ends the expression. -/
theorem ReadsPrefixed.readsWhole
    {tokens : List Token}
    {expr : Expr}
    (reads : ReadsPrefixed tokens expr)
    (waiting : Waiting) :
    ReadsWhole tokens waiting (Precedence.close .binary waiting expr) := by
  intro frames
  obtain ⟨pending, operand, ran, rfl⟩ := reads frames waiting
  exact ⟨waiting, pending, operand, ran, rfl⟩

/-- An operand and an operator in front of the rest. -/
theorem ReadsPrefixed.readsWhole_inside
    {tokens rest : List Token}
    {expr whole : Expr}
    (reads : ReadsPrefixed tokens expr)
    {symbol : Text}
    {operator : BinOp}
    (spelled : Infix symbol operator)
    {waiting : Waiting}
    (later : ReadsWhole rest (Precedence.push .binary BinOp.binds waiting expr operator) whole) :
    ReadsWhole (tokens ++ .punct symbol :: rest) waiting whole := by
  intro frames
  obtain ⟨pending, operand, ran, rfl⟩ := reads frames waiting
  obtain ⟨inner, innerPending, last, ranRest, result⟩ := later frames
  refine ⟨inner, innerPending, last, run_append_of_eq ran ?_, result⟩
  rw [run_cons, step, spelled]
  exact ranRest

/-- An expression in parentheses is one operand. -/
theorem ReadsWhole.readsPrefixed
    {tokens : List Token}
    {expr : Expr}
    (reads : ReadsWhole tokens [] expr) :
    ReadsPrefixed (.punct "(" :: (tokens ++ [.punct ")"])) expr := by
  intro frames waiting
  obtain ⟨inner, pending, operand, ran, rfl⟩ := reads (⟨.group, waiting, []⟩ :: frames)
  refine ⟨[], Context.whole ⟨⟨.group, waiting, []⟩ :: frames, inner, pending⟩ operand, ?_, rfl⟩
  have opened : step (.operand ⟨frames, waiting, []⟩) (.punct "(") =
      some (.operand ⟨⟨.group, waiting, []⟩ :: frames, [], []⟩) := rfl
  rw [run_cons, opened, Option.bind_some]
  exact run_append_of_eq ran rfl

section Formula

variable {Operator Leaf : Type} {rename : Operator → BinOp} {leafTokens : Leaf → List Token}
  {leafExpr : Leaf → Expr} {symbol : Operator → Text} {allowed : Operator → Prop}
  {leafAllowed : Leaf → Prop}

/-- The tokens of a formula are read as its tree under the C++ precedence
table. -/
theorem readsWhole_formula
    (leaves : ∀ operand, leafAllowed operand →
      ReadsPrefixed (leafTokens operand) (leafExpr operand))
    (operators : ∀ operator, allowed operator → Infix (symbol operator) (rename operator))
    {formula : Precedence.Formula Operator Leaf}
    (all : formula.All allowed leafAllowed)
    (stack : Precedence.Stack Operator Expr) :
    ReadsWhole
      (formula.pieces leafTokens (fun operator => [.punct (symbol operator)]) [.punct "("]
        [.punct ")"]).flatten
      (stack.map (Prod.map id rename))
      (formula.fold leafExpr (fun operator => .binary (rename operator))
        (fun waiting next => BinOp.binds (rename waiting) (rename next)) stack) := by
  induction formula generalizing stack with
  | leaf operand =>
      have read := (leaves operand all).readsWhole (stack.map (Prod.map id rename))
      rw [Precedence.close_map] at read
      simpa [Precedence.Formula.pieces, Precedence.Formula.fold] using read
  | paren inside inductionHypothesis =>
      have read := (inductionHypothesis all []).readsPrefixed.readsWhole
        (stack.map (Prod.map id rename))
      rw [Precedence.close_map] at read
      simpa [Precedence.Formula.pieces, Precedence.Formula.fold] using read
  | leafThen operand operator rest inductionHypothesis =>
      have later := inductionHypothesis all.2.2
        (Precedence.push (fun operator => .binary (rename operator))
          (fun waiting next => BinOp.binds (rename waiting) (rename next)) stack
          (leafExpr operand) operator)
      rw [← Precedence.push_map] at later
      have read := (leaves operand all.1).readsWhole_inside (operators operator all.2.1) later
      simpa [Precedence.Formula.pieces, Precedence.Formula.fold] using read
  | parenThen inside operator rest insideHypothesis restHypothesis =>
      have later := restHypothesis all.2.2
        (Precedence.push (fun operator => .binary (rename operator))
          (fun waiting next => BinOp.binds (rename waiting) (rename next)) stack
          (inside.fold leafExpr (fun operator => .binary (rename operator))
            (fun waiting next => BinOp.binds (rename waiting) (rename next)) []) operator)
      rw [← Precedence.push_map] at later
      have read := (insideHypothesis all.1 []).readsPrefixed.readsWhole_inside
        (operators operator all.2.1) later
      simpa [Precedence.Formula.pieces, Precedence.Formula.fold] using read

end Formula

/-- An expression that fills the input. -/
theorem ReadsWhole.parse_eq
    {tokens : List Token}
    {expr : Expr}
    (reads : ReadsWhole tokens [] expr) :
    parse tokens = some expr := by
  obtain ⟨inner, pending, operand, ran, rfl⟩ := reads []
  rw [parse, Option.bind_eq_bind, Context.empty, ran]
  rfl

end Parser

/-! ## Texts with spaces -/

/-- The text spells some tokens, and a space may follow it. -/
def SpellsWord (text : Text) (tokens : List Token) : Prop :=
  ∃ mode, Spells text tokens mode ∧ breaks mode ' '

theorem SpellsWord.nil : SpellsWord [] [] := ⟨.start, .of_closed rfl, rfl⟩

/-- Words written one behind the other. -/
theorem SpellsWord.behind
    {first second : Text}
    {firstTokens secondTokens : List Token}
    {mode : Mode}
    (spells : Spells first firstTokens mode)
    (space : breaks mode ' ')
    (apart : ∀ character ∈ second.head?, breaks mode character)
    (word : SpellsWord second secondTokens) :
    SpellsWord (first ++ second) (firstTokens ++ secondTokens) := by
  obtain ⟨last, later, ends⟩ := word
  cases second with
  | nil =>
      have none : secondTokens = [] := (Option.some.inj later.lex_eq).symm
      rw [none, List.append_nil, List.append_nil]
      exact ⟨mode, spells, space⟩
  | cons character rest => exact ⟨last, spells.append (apart character rfl) later, ends⟩

/-- Reading starts over behind a word and a space. -/
theorem SpellsWord.lex_append
    {first : Text}
    {tokens : List Token}
    (word : SpellsWord first tokens)
    (rest : Text) :
    lex (first ++ ' ' :: rest) = (lex rest).map (tokens ++ ·) := by
  obtain ⟨mode, ⟨completed, pending, ran, finished, rfl⟩, ends⟩ := word
  unfold breaks at ends
  rw [finished, Option.map_some] at ends
  have fresh : begin ' ' = .start := rfl
  simp only [lex, run_append, ran, Option.bind_eq_bind, Option.bind_some, run, ends, fresh]
  cases run .start rest with
  | none => rfl
  | some result =>
      simp only [Option.bind_some, Option.pure_def]
      cases finish result.2 with
      | none => rfl
      | some last => simp

theorem spells_joinWith
    {texts : List Text}
    {tokens : List (List Token)}
    (words : List.Forall₂ SpellsWord texts tokens)
    (present : texts ≠ []) :
    SpellsWord (joinWith ' ' texts) tokens.flatten := by
  induction words with
  | nil => exact (present rfl).elim
  | @cons text spelled texts others word words inductionHypothesis =>
      cases words with
      | nil => simpa [joinWith] using word
      | @cons next nextSpelled rest more nextWord nextWords =>
          obtain ⟨mode, spells, ends⟩ := word
          obtain ⟨last, later, lastEnds⟩ := inductionHypothesis (by simp)
          have space : Spells " " [] .start := .of_closed rfl
          have whole := spells.append ends (space.append_start later)
          refine ⟨last, ?_, lastEnds⟩
          simpa [joinWith] using whole

end Cpp
end MfQuery
