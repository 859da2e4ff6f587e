import Mathlib.Data.List.Basic

/-!
# Operator-precedence reduction

A parser that reads operands and binary operators alternately keeps the
operands waiting for their right-hand side on a stack. When the next operator
arrives, the waiting operators that bind tighter are applied first. Which
operator is applied first is the only place where precedence and associativity
enter, so two languages that agree on it for the operators of a text build the
same tree.
-/

namespace MfQuery
namespace Precedence

variable {Operator Tree : Type}

/-- Left operands waiting for a right operand, innermost first. -/
abbrev Stack (Operator Tree : Type) := List (Tree × Operator)

/-- Apply the waiting operators while `applies` says so. -/
def reduce
    (node : Operator → Tree → Tree → Tree)
    (applies : Operator → Bool) :
    Stack Operator Tree → Tree → Stack Operator Tree × Tree
  | [], right => ([], right)
  | (left, operator) :: stack, right =>
      if applies operator then
        reduce node applies stack (node operator left right)
      else
        ((left, operator) :: stack, right)

/-- A further operator arrives after the operand `right`. -/
def push
    (node : Operator → Tree → Tree → Tree)
    (binds : Operator → Operator → Bool)
    (stack : Stack Operator Tree)
    (right : Tree)
    (operator : Operator) : Stack Operator Tree :=
  let reduced := reduce node (fun waiting => binds waiting operator) stack right
  (reduced.2, operator) :: reduced.1

/-- The expression ends after the operand `right`. -/
def close
    (node : Operator → Tree → Tree → Tree)
    (stack : Stack Operator Tree)
    (right : Tree) : Tree :=
  (reduce node (fun _ => true) stack right).2

@[simp] theorem reduce_nil
    (node : Operator → Tree → Tree → Tree)
    (applies : Operator → Bool)
    (right : Tree) :
    reduce node applies [] right = ([], right) := rfl

@[simp] theorem push_nil
    (node : Operator → Tree → Tree → Tree)
    (binds : Operator → Operator → Bool)
    (right : Tree)
    (operator : Operator) :
    push node binds [] right operator = [(right, operator)] := rfl

theorem push_cons_of_binds
    {node : Operator → Tree → Tree → Tree}
    {binds : Operator → Operator → Bool}
    {waiting operator : Operator}
    (tighter : binds waiting operator = true)
    (left right : Tree)
    (stack : Stack Operator Tree) :
    push node binds ((left, waiting) :: stack) right operator =
      push node binds stack (node waiting left right) operator := by
  simp [push, reduce, tighter]

theorem push_cons_of_not_binds
    {node : Operator → Tree → Tree → Tree}
    {binds : Operator → Operator → Bool}
    {waiting operator : Operator}
    (looser : binds waiting operator = false)
    (left right : Tree)
    (stack : Stack Operator Tree) :
    push node binds ((left, waiting) :: stack) right operator =
      (right, operator) :: (left, waiting) :: stack := by
  simp [push, reduce, looser]

@[simp] theorem close_nil
    (node : Operator → Tree → Tree → Tree)
    (right : Tree) :
    close node ([] : Stack Operator Tree) right = right := rfl

@[simp] theorem close_cons
    (node : Operator → Tree → Tree → Tree)
    (left right : Tree)
    (operator : Operator)
    (stack : Stack Operator Tree) :
    close node ((left, operator) :: stack) right =
      close node stack (node operator left right) := by
  simp [close, reduce]

theorem reduce_suffix
    (node : Operator → Tree → Tree → Tree)
    (applies : Operator → Bool)
    (stack : Stack Operator Tree)
    (right : Tree) :
    (reduce node applies stack right).1 <:+ stack := by
  induction stack generalizing right with
  | nil => exact List.suffix_refl _
  | cons entry stack inductionHypothesis =>
      obtain ⟨left, operator⟩ := entry
      unfold reduce
      split_ifs
      · exact (inductionHypothesis _).trans (List.suffix_cons ..)
      · exact List.suffix_refl _

/-- At the end no operand is left waiting. -/
theorem reduce_all
    (node : Operator → Tree → Tree → Tree)
    (stack : Stack Operator Tree)
    (right : Tree) :
    (reduce node (fun _ => true) stack right).1 = [] := by
  induction stack generalizing right with
  | nil => rfl
  | cons entry stack inductionHypothesis =>
      rw [reduce, if_pos rfl]
      exact inductionHypothesis _

/-! ## Nested stacks -/

theorem close_append
    (node : Operator → Tree → Tree → Tree)
    (inner outer : Stack Operator Tree)
    (right : Tree) :
    close node (inner ++ outer) right = close node outer (close node inner right) := by
  induction inner generalizing right with
  | nil => rfl
  | cons entry inner inductionHypothesis =>
      obtain ⟨left, operator⟩ := entry
      simpa using inductionHypothesis (node operator left right)

/-- Waiting operators that bind tighter than the arriving one are applied as
at the end of an expression. -/
theorem push_append_of_binds
    {node : Operator → Tree → Tree → Tree}
    {binds : Operator → Operator → Bool}
    {operator : Operator}
    {inner : Stack Operator Tree}
    (tighter : ∀ entry ∈ inner, binds entry.2 operator = true)
    (outer : Stack Operator Tree)
    (right : Tree) :
    push node binds (inner ++ outer) right operator =
      push node binds outer (close node inner right) operator := by
  induction inner generalizing right with
  | nil => rfl
  | cons entry inner inductionHypothesis =>
      obtain ⟨left, waiting⟩ := entry
      have here := tighter (left, waiting) (List.mem_cons_self ..)
      have later := inductionHypothesis
        (fun other member => tighter other (List.mem_cons_of_mem _ member))
        (node waiting left right)
      rw [List.cons_append, push_cons_of_binds here, later, close_cons]

/-- An operator that binds tighter than everything waiting only waits. -/
theorem push_of_not_binds
    {node : Operator → Tree → Tree → Tree}
    {binds : Operator → Operator → Bool}
    {operator : Operator}
    {stack : Stack Operator Tree}
    (looser : ∀ entry ∈ stack, binds entry.2 operator = false)
    (right : Tree) :
    push node binds stack right operator = (right, operator) :: stack := by
  cases stack with
  | nil => rfl
  | cons entry stack =>
      exact push_cons_of_not_binds (looser entry (List.mem_cons_self ..)) ..

/-- Read operand after operand, each behind its operator, to the end. -/
def chain
    (node : Operator → Tree → Tree → Tree)
    (binds : Operator → Operator → Bool) :
    Stack Operator Tree → Tree → List (Operator × Tree) → Tree
  | stack, right, [] => close node stack right
  | stack, right, (operator, next) :: rest =>
      chain node binds (push node binds stack right operator) next rest

/-- Only how the operators at hand bind matters. -/
theorem reduce_congr
    {node : Operator → Tree → Tree → Tree}
    {applies applies' : Operator → Bool}
    {stack : Stack Operator Tree}
    (agree : ∀ entry ∈ stack, applies entry.2 = applies' entry.2)
    (right : Tree) :
    reduce node applies stack right = reduce node applies' stack right := by
  induction stack generalizing right with
  | nil => rfl
  | cons entry stack inductionHypothesis =>
      obtain ⟨left, operator⟩ := entry
      have here := agree (left, operator) (List.mem_cons_self ..)
      have later := inductionHypothesis
        (fun other member => agree other (List.mem_cons_of_mem _ member))
        (node operator left right)
      simp only at here
      simp only [reduce, here, later]

/-- Two languages whose operators bind alike build the same tree. -/
theorem chain_congr
    {node : Operator → Tree → Tree → Tree}
    {binds binds' : Operator → Operator → Bool}
    {allowed : Operator → Prop}
    (agree : ∀ waiting next, allowed waiting → allowed next →
      binds waiting next = binds' waiting next)
    {rest : List (Operator × Tree)}
    (restAllowed : ∀ entry ∈ rest, allowed entry.1)
    {stack : Stack Operator Tree}
    (stackAllowed : ∀ entry ∈ stack, allowed entry.2)
    (right : Tree) :
    chain node binds stack right rest = chain node binds' stack right rest := by
  induction rest generalizing stack right with
  | nil => rfl
  | cons entry rest inductionHypothesis =>
      obtain ⟨operator, next⟩ := entry
      have isAllowed : allowed operator := restAllowed _ (List.mem_cons_self ..)
      have pushed : push node binds stack right operator =
          push node binds' stack right operator := by
        have reduced : reduce node (fun waiting => binds waiting operator) stack right =
            reduce node (fun waiting => binds' waiting operator) stack right :=
          reduce_congr (fun entry member =>
            agree entry.2 operator (stackAllowed entry member) isAllowed) right
        simp only [push, reduced]
      rw [chain, chain, pushed]
      apply inductionHypothesis fun other member =>
        restAllowed other (List.mem_cons_of_mem _ member)
      intro entry member
      rcases List.mem_cons.mp member with rfl | below
      · exact isAllowed
      · exact stackAllowed entry ((reduce_suffix ..).subset below)

/-! ## What holds of all operands -/

section Operands

variable {node : Operator → Tree → Tree → Tree} {holds : Tree → Prop}

theorem reduce_holds_iff
    (splits : ∀ operator left right, holds (node operator left right) ↔ holds left ∧ holds right)
    (applies : Operator → Bool)
    (stack : Stack Operator Tree)
    (right : Tree) :
    ((∀ entry ∈ (reduce node applies stack right).1, holds entry.1) ∧
        holds (reduce node applies stack right).2) ↔
      (∀ entry ∈ stack, holds entry.1) ∧ holds right := by
  induction stack generalizing right with
  | nil => rfl
  | cons entry stack inductionHypothesis =>
      obtain ⟨left, operator⟩ := entry
      unfold reduce
      split_ifs
      · rw [inductionHypothesis, splits, List.forall_mem_cons]
        tauto
      · rfl

/-- A property that a node has when its operands have it holds of a chain when
it holds of every operand. -/
theorem chain_holds_iff
    (splits : ∀ operator left right, holds (node operator left right) ↔ holds left ∧ holds right)
    (binds : Operator → Operator → Bool)
    (stack : Stack Operator Tree)
    (right : Tree)
    (rest : List (Operator × Tree)) :
    holds (chain node binds stack right rest) ↔
      ((∀ entry ∈ stack, holds entry.1) ∧ holds right) ∧ ∀ entry ∈ rest, holds entry.2 := by
  induction rest generalizing stack right with
  | nil =>
      have closed := reduce_holds_iff splits (fun _ => true) stack right
      have empty : (reduce node (fun _ => true) stack right).1 = [] := reduce_all node stack right
      rw [empty] at closed
      simpa [chain, close] using closed
  | cons entry rest inductionHypothesis =>
      obtain ⟨operator, next⟩ := entry
      have pushed := reduce_holds_iff splits (fun waiting => binds waiting operator) stack right
      rw [chain, inductionHypothesis, push, List.forall_mem_cons, List.forall_mem_cons, ← pushed]
      tauto

end Operands

/-! ## Two machines in step -/

section Related

variable {Tree' : Type} {node : Operator → Tree → Tree → Tree}
  {node' : Operator → Tree' → Tree' → Tree'} {allowed : Operator → Prop}
  {related : Tree → Tree' → Prop}

/-- Stacks with the same allowed operators and related operands. -/
def RelatedStacks
    (allowed : Operator → Prop)
    (related : Tree → Tree' → Prop)
    (stack : Stack Operator Tree)
    (stack' : Stack Operator Tree') : Prop :=
  List.Forall₂ (fun entry entry' =>
    related entry.1 entry'.1 ∧ entry.2 = entry'.2 ∧ allowed entry.2) stack stack'

theorem related_reduce
    (respects : ∀ operator left right left' right', allowed operator →
      related left left' → related right right' →
        related (node operator left right) (node' operator left' right'))
    (applies : Operator → Bool)
    {stack : Stack Operator Tree}
    {stack' : Stack Operator Tree'}
    (waitingOperands : RelatedStacks allowed related stack stack')
    {right : Tree}
    {right' : Tree'}
    (operands : related right right') :
    RelatedStacks allowed related (reduce node applies stack right).1
        (reduce node' applies stack' right').1 ∧
      related (reduce node applies stack right).2 (reduce node' applies stack' right').2 := by
  induction waitingOperands generalizing right right' with
  | nil => exact ⟨.nil, operands⟩
  | @cons entry entry' stack stack' entries waitingOperands inductionHypothesis =>
      obtain ⟨left, operator⟩ := entry
      obtain ⟨left', operator'⟩ := entry'
      obtain ⟨lefts, rfl, isAllowed⟩ := entries
      unfold reduce
      split_ifs
      · exact inductionHypothesis
          (respects operator left right left' right' isAllowed lefts operands)
      · exact ⟨.cons ⟨lefts, rfl, isAllowed⟩ waitingOperands, operands⟩

theorem related_push
    (respects : ∀ operator left right left' right', allowed operator →
      related left left' → related right right' →
        related (node operator left right) (node' operator left' right'))
    (binds : Operator → Operator → Bool)
    {stack : Stack Operator Tree}
    {stack' : Stack Operator Tree'}
    (waitingOperands : RelatedStacks allowed related stack stack')
    {right : Tree}
    {right' : Tree'}
    (operands : related right right')
    {operator : Operator}
    (isAllowed : allowed operator) :
    RelatedStacks allowed related (push node binds stack right operator)
      (push node' binds stack' right' operator) := by
  obtain ⟨reduced, result⟩ :=
    related_reduce respects (fun waiting => binds waiting operator) waitingOperands operands
  exact .cons ⟨result, rfl, isAllowed⟩ reduced

/-- Related operands under the same operators build related trees. -/
theorem related_chain
    (respects : ∀ operator left right left' right', allowed operator →
      related left left' → related right right' →
        related (node operator left right) (node' operator left' right'))
    (binds : Operator → Operator → Bool)
    {rest : List (Operator × Tree)}
    {rest' : List (Operator × Tree')}
    (rests : List.Forall₂ (fun entry entry' =>
      entry.1 = entry'.1 ∧ allowed entry.1 ∧ related entry.2 entry'.2) rest rest')
    {stack : Stack Operator Tree}
    {stack' : Stack Operator Tree'}
    (waitingOperands : RelatedStacks allowed related stack stack')
    {right : Tree}
    {right' : Tree'}
    (operands : related right right') :
    related (chain node binds stack right rest) (chain node' binds stack' right' rest') := by
  induction rests generalizing stack stack' right right' with
  | nil => exact (related_reduce respects (fun _ => true) waitingOperands operands).2
  | @cons entry entry' rest rest' entries rests inductionHypothesis =>
      obtain ⟨operator, next⟩ := entry
      obtain ⟨operator', next'⟩ := entry'
      obtain ⟨rfl, isAllowed, nexts⟩ := entries
      exact inductionHypothesis (related_push respects binds waitingOperands operands isAllowed) nexts

end Related

end Precedence
end MfQuery
