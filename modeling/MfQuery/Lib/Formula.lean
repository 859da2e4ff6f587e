import Mathlib.Data.List.Forall2
import Mathlib.Tactic
import MfQuery.Lib.Precedence

/-!
# Texts with parentheses

A formula is a text in which operands and binary operators alternate and an
operand is a leaf or a formula in parentheses. Its tree is built by the
operator-precedence machine, level by level. What a formula means in a
language is the fold with the language's operations and its table of which
operator is applied first.

Two tables may differ and still build the same tree: they only have to agree
on an arriving operator and those that can be waiting when it arrives. Since
an operator leaves nothing waiting below it that binds as tight as itself,
this is a matter of the operators in front of it.
-/

namespace MfQuery
namespace Precedence

variable {Operator Leaf Tree : Type}

/-- Operands and operators in alternation; operands are leaves or formulas in
parentheses. -/
inductive Formula (Operator Leaf : Type)
  | leaf (leaf : Leaf)
  | paren (inside : Formula Operator Leaf)
  | leafThen (leaf : Leaf) (operator : Operator) (rest : Formula Operator Leaf)
  | parenThen (inside : Formula Operator Leaf) (operator : Operator)
      (rest : Formula Operator Leaf)
  deriving DecidableEq, Repr

namespace Formula

/-- The tree of a formula behind the operands already waiting. -/
def fold
    (leafTree : Leaf → Tree)
    (node : Operator → Tree → Tree → Tree)
    (binds : Operator → Operator → Bool) :
    Formula Operator Leaf → Stack Operator Tree → Tree
  | leaf operand, stack => close node stack (leafTree operand)
  | paren inside, stack => close node stack (inside.fold leafTree node binds [])
  | leafThen operand operator rest, stack =>
      rest.fold leafTree node binds (push node binds stack (leafTree operand) operator)
  | parenThen inside operator rest, stack =>
      rest.fold leafTree node binds
        (push node binds stack (inside.fold leafTree node binds []) operator)

/-- The pieces a formula is written with. -/
def pieces
    {Piece : Type}
    (leafPiece : Leaf → Piece)
    (operatorPiece : Operator → Piece)
    (opening closing : Piece) : Formula Operator Leaf → List Piece
  | leaf operand => [leafPiece operand]
  | paren inside =>
      opening :: (inside.pieces leafPiece operatorPiece opening closing ++ [closing])
  | leafThen operand operator rest =>
      leafPiece operand :: operatorPiece operator ::
        rest.pieces leafPiece operatorPiece opening closing
  | parenThen inside operator rest =>
      opening :: (inside.pieces leafPiece operatorPiece opening closing ++
        closing :: operatorPiece operator ::
          rest.pieces leafPiece operatorPiece opening closing)

/-- All operators and leaves are allowed. -/
def All (allowed : Operator → Prop) (leafAllowed : Leaf → Prop) : Formula Operator Leaf → Prop
  | leaf operand => leafAllowed operand
  | paren inside => inside.All allowed leafAllowed
  | leafThen operand operator rest =>
      leafAllowed operand ∧ allowed operator ∧ rest.All allowed leafAllowed
  | parenThen inside operator rest =>
      inside.All allowed leafAllowed ∧ allowed operator ∧ rest.All allowed leafAllowed

theorem All.imp
    {allowed : Operator → Prop}
    {first second : Leaf → Prop}
    (implies : ∀ leaf, first leaf → second leaf)
    {formula : Formula Operator Leaf}
    (all : formula.All allowed first) :
    formula.All allowed second := by
  induction formula with
  | leaf operand => exact implies operand all
  | paren inside inductionHypothesis => exact inductionHypothesis all
  | leafThen operand operator rest inductionHypothesis =>
      exact ⟨implies operand all.1, all.2.1, inductionHypothesis all.2.2⟩
  | parenThen inside operator rest insideHypothesis restHypothesis =>
      exact ⟨insideHypothesis all.1, all.2.1, restHypothesis all.2.2⟩

theorem pieces_ne_nil
    {Piece : Type}
    (leafPiece : Leaf → Piece)
    (operatorPiece : Operator → Piece)
    (opening closing : Piece)
    (formula : Formula Operator Leaf) :
    formula.pieces leafPiece operatorPiece opening closing ≠ [] := by
  cases formula <;> simp [pieces]

/-- The same formula written with two kinds of pieces. -/
theorem forall₂_pieces
    {Piece Piece' : Type}
    {related : Piece → Piece' → Prop}
    {allowed : Operator → Prop}
    {leafAllowed : Leaf → Prop}
    {leafPiece : Leaf → Piece}
    {leafPiece' : Leaf → Piece'}
    {operatorPiece : Operator → Piece}
    {operatorPiece' : Operator → Piece'}
    {opening closing : Piece}
    {opening' closing' : Piece'}
    (leaves : ∀ operand, leafAllowed operand → related (leafPiece operand) (leafPiece' operand))
    (operators : ∀ operator, allowed operator →
      related (operatorPiece operator) (operatorPiece' operator))
    (opens : related opening opening')
    (closes : related closing closing')
    {formula : Formula Operator Leaf}
    (all : formula.All allowed leafAllowed) :
    List.Forall₂ related (formula.pieces leafPiece operatorPiece opening closing)
      (formula.pieces leafPiece' operatorPiece' opening' closing') := by
  induction formula with
  | leaf operand => exact .cons (leaves operand all) .nil
  | paren inside inductionHypothesis =>
      exact .cons opens (List.rel_append (inductionHypothesis all) (.cons closes .nil))
  | leafThen operand operator rest inductionHypothesis =>
      exact .cons (leaves operand all.1)
        (.cons (operators operator all.2.1) (inductionHypothesis all.2.2))
  | parenThen inside operator rest insideHypothesis restHypothesis =>
      exact .cons opens (List.rel_append (insideHypothesis all.1)
        (.cons closes (.cons (operators operator all.2.1) (restHypothesis all.2.2))))

/-- Related leaves under operations that respect the relation build related
trees. -/
theorem related_fold
    {Tree' : Type}
    {related : Tree → Tree' → Prop}
    {allowed : Operator → Prop}
    {leafAllowed : Leaf → Prop}
    {leafTree : Leaf → Tree}
    {leafTree' : Leaf → Tree'}
    {node : Operator → Tree → Tree → Tree}
    {node' : Operator → Tree' → Tree' → Tree'}
    (leaves : ∀ operand, leafAllowed operand → related (leafTree operand) (leafTree' operand))
    (respects : ∀ operator left right left' right', allowed operator →
      related left left' → related right right' →
        related (node operator left right) (node' operator left' right'))
    (binds : Operator → Operator → Bool)
    {formula : Formula Operator Leaf}
    (all : formula.All allowed leafAllowed)
    {stack : Stack Operator Tree}
    {stack' : Stack Operator Tree'}
    (waitingOperands : RelatedStacks allowed related stack stack') :
    related (formula.fold leafTree node binds stack)
      (formula.fold leafTree' node' binds stack') := by
  induction formula generalizing stack stack' with
  | leaf operand =>
      exact (related_reduce respects (fun _ => true) waitingOperands (leaves operand all)).2
  | paren inside inductionHypothesis =>
      exact (related_reduce respects (fun _ => true) waitingOperands
        (inductionHypothesis all .nil)).2
  | leafThen operand operator rest inductionHypothesis =>
      exact inductionHypothesis all.2.2
        (related_push respects binds waitingOperands (leaves operand all.1) all.2.1)
  | parenThen inside operator rest insideHypothesis restHypothesis =>
      exact restHypothesis all.2.2
        (related_push respects binds waitingOperands (insideHypothesis all.1 .nil) all.2.1)

/-- A property of the leaves that operations keep holds of the tree. -/
theorem holds_fold
    {holds : Tree → Prop}
    {allowed : Operator → Prop}
    {leafAllowed : Leaf → Prop}
    {leafTree : Leaf → Tree}
    {node : Operator → Tree → Tree → Tree}
    (leaves : ∀ operand, leafAllowed operand → holds (leafTree operand))
    (keeps : ∀ operator left right, allowed operator → holds left → holds right →
      holds (node operator left right))
    (binds : Operator → Operator → Bool)
    {formula : Formula Operator Leaf}
    (all : formula.All allowed leafAllowed) :
    holds (formula.fold leafTree node binds []) := by
  -- The tree is related to itself; the relation looks at one side only.
  exact @related_fold _ _ _ Tree (fun tree _ => holds tree) allowed leafAllowed leafTree leafTree
    node node leaves (fun operator left right _ _ => keeps operator left right) binds formula all
    [] [] .nil

end Formula

/-! ## Tables that agree where it matters -/

section Tables

variable {node : Operator → Tree → Tree → Tree} {rank : Operator → Nat}

/-- The waiting operators bind tighter the later they came. -/
def Sorted (rank : Operator → Nat) (stack : Stack Operator Tree) : Prop :=
  stack.Pairwise fun upper lower => rank lower.2 ≤ rank upper.2

/-- What reducing a sorted stack leaves binds looser than what it was reduced
for. -/
theorem rank_lt_of_mem_reduce
    {applies : Operator → Bool}
    {bound : Nat}
    {stack : Stack Operator Tree}
    (sorted : Sorted rank stack)
    (looser : ∀ entry ∈ stack, applies entry.2 = false → rank entry.2 < bound)
    (right : Tree) :
    ∀ entry ∈ (reduce node applies stack right).1, rank entry.2 < bound := by
  induction stack generalizing right with
  | nil => simp
  | cons entry stack inductionHypothesis =>
      obtain ⟨left, operator⟩ := entry
      obtain ⟨below, sortedBelow⟩ := List.pairwise_cons.mp sorted
      have later := inductionHypothesis sortedBelow
        fun other member => looser other (List.mem_cons_of_mem _ member)
      rw [reduce]
      split_ifs with applied
      · exact later _
      · have here := looser (left, operator) (List.mem_cons_self ..)
          (Bool.eq_false_iff.mpr applied)
        intro other member
        rcases List.mem_cons.mp member with rfl | inside
        · exact here
        · exact (below other inside).trans_lt here

/-- The operators that can be waiting behind an operator that arrived. -/
def waitingBehind
    (rank : Operator → Nat)
    (waiting : Operator → Prop)
    (arrived : Operator) : Operator → Prop :=
  fun operator => operator = arrived ∨ waiting operator ∧ rank operator < rank arrived

/-- The tables agree on every arriving operator and those that can be waiting
then. -/
def Formula.Agree
    (rank : Operator → Nat)
    (binds binds' : Operator → Operator → Bool) :
    Formula Operator Leaf → (Operator → Prop) → Prop
  | .leaf _, _ => True
  | .paren inside, _ => inside.Agree rank binds binds' fun _ => False
  | .leafThen _ operator rest, waiting =>
      (∀ other, waiting other → binds other operator = binds' other operator) ∧
        rest.Agree rank binds binds' (waitingBehind rank waiting operator)
  | .parenThen inside operator rest, waiting =>
      inside.Agree rank binds binds' (fun _ => False) ∧
        (∀ other, waiting other → binds other operator = binds' other operator) ∧
          rest.Agree rank binds binds' (waitingBehind rank waiting operator)

/-- An arriving operator on which the tables agree: the stacks stay the same,
sorted, and among the expected operators. -/
theorem push_congr
    {binds binds' : Operator → Operator → Bool}
    {allowed waiting : Operator → Prop}
    {stack : Stack Operator Tree}
    {operator : Operator}
    (looser : ∀ other, allowed other → binds other operator = false →
      rank other < rank operator)
    (sorted : Sorted rank stack)
    (expected : ∀ entry ∈ stack, allowed entry.2 ∧ waiting entry.2)
    (isAllowed : allowed operator)
    (agree : ∀ other, waiting other → binds other operator = binds' other operator)
    (right : Tree) :
    push node binds stack right operator = push node binds' stack right operator ∧
      Sorted rank (push node binds stack right operator) ∧
      ∀ entry ∈ push node binds stack right operator,
        allowed entry.2 ∧ waitingBehind rank waiting operator entry.2 := by
  have below : ∀ entry ∈ (reduce node (fun other => binds other operator) stack right).1,
      rank entry.2 < rank operator :=
    rank_lt_of_mem_reduce sorted
      (fun entry member => looser entry.2 (expected entry member).1) right
  have suffix := reduce_suffix node (fun other => binds other operator) stack right
  have same : reduce node (fun other => binds other operator) stack right =
      reduce node (fun other => binds' other operator) stack right :=
    reduce_congr (fun entry member => agree entry.2 (expected entry member).2) right
  refine ⟨by simp only [push, same], ?_, ?_⟩
  · refine List.pairwise_cons.mpr ⟨fun entry member => (below entry member).le, ?_⟩
    exact sorted.sublist suffix.sublist
  · intro entry member
    rcases List.mem_cons.mp member with rfl | inside
    · exact ⟨isAllowed, .inl rfl⟩
    · have known := expected entry (suffix.subset inside)
      exact ⟨known.1, .inr ⟨known.2, below entry inside⟩⟩

/-- Tables that agree where it matters build the same tree. -/
theorem Formula.fold_congr
    {leafTree : Leaf → Tree}
    {binds binds' : Operator → Operator → Bool}
    {allowed : Operator → Prop}
    (looser : ∀ other operator, allowed other → allowed operator →
      binds other operator = false → rank other < rank operator)
    {leafAllowed : Leaf → Prop}
    {formula : Formula Operator Leaf}
    (all : formula.All allowed leafAllowed)
    {waiting : Operator → Prop}
    (agree : formula.Agree rank binds binds' waiting)
    {stack : Stack Operator Tree}
    (sorted : Sorted rank stack)
    (expected : ∀ entry ∈ stack, allowed entry.2 ∧ waiting entry.2) :
    formula.fold leafTree node binds stack = formula.fold leafTree node binds' stack := by
  induction formula generalizing stack waiting with
  | leaf operand => rfl
  | paren inside inductionHypothesis =>
      have same : inside.fold leafTree node binds [] = inside.fold leafTree node binds' [] :=
        inductionHypothesis all agree .nil (by simp)
      simp only [fold, same]
  | leafThen operand operator rest inductionHypothesis =>
      obtain ⟨same, sortedNow, expectedNow⟩ := push_congr
        (fun other isOther => looser other operator isOther all.2.1) sorted expected all.2.1
        agree.1 (leafTree operand)
      have later := inductionHypothesis all.2.2 agree.2 sortedNow expectedNow
      rw [fold, fold, later, same]
  | parenThen inside operator rest insideHypothesis restHypothesis =>
      have first : inside.fold leafTree node binds [] = inside.fold leafTree node binds' [] :=
        insideHypothesis all.1 agree.1 .nil (by simp)
      obtain ⟨same, sortedNow, expectedNow⟩ := push_congr
        (fun other isOther => looser other operator isOther all.2.1) sorted expected all.2.1
        agree.2.1 (inside.fold leafTree node binds [])
      have later := restHypothesis all.2.2 agree.2.2 sortedNow expectedNow
      rw [fold, fold, later, same, first]

end Tables

/-! ## Renamed operators -/

section Renamed

variable {Operator' : Type} {node : Operator' → Tree → Tree → Tree}
  (rename : Operator → Operator')

theorem reduce_map
    (applies : Operator' → Bool)
    (stack : Stack Operator Tree)
    (right : Tree) :
    reduce node applies (stack.map (Prod.map id rename)) right =
      let reduced := reduce (fun operator => node (rename operator))
        (fun operator => applies (rename operator)) stack right
      (reduced.1.map (Prod.map id rename), reduced.2) := by
  induction stack generalizing right with
  | nil => rfl
  | cons entry stack inductionHypothesis =>
      obtain ⟨left, operator⟩ := entry
      simp only [List.map_cons, Prod.map_apply, id_eq, reduce]
      split_ifs
      · exact inductionHypothesis _
      · rfl

theorem push_map
    (binds : Operator' → Operator' → Bool)
    (stack : Stack Operator Tree)
    (right : Tree)
    (operator : Operator) :
    push node binds (stack.map (Prod.map id rename)) right (rename operator) =
      (push (fun operator => node (rename operator))
        (fun waiting next => binds (rename waiting) (rename next)) stack right operator).map
          (Prod.map id rename) := by
  simp only [push, reduce_map, List.map_cons, Prod.map_apply, id_eq]

theorem close_map
    (stack : Stack Operator Tree)
    (right : Tree) :
    close node (stack.map (Prod.map id rename)) right =
      close (fun operator => node (rename operator)) stack right := by
  simp only [close, reduce_map]

end Renamed

end Precedence
end MfQuery
