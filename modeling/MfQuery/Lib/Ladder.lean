import MfQuery.Lib.Precedence

/-!
# Three levels of operators

Where the operators of a text stand on three levels and all group from the
left, at most one operand of each level waits. With a left unit for the two
looser levels, the value of a chain is a fold over three running values: the
finished part of the loosest level, of the middle one and of the tightest one.
-/

namespace MfQuery
namespace Precedence

variable {Operator Tree : Type}

/-- Three operators on three levels, all grouping from the left. -/
structure Ladder (binds : Operator → Operator → Bool) (loose middle tight : Operator) : Prop where
  tight_tight : binds tight tight = true
  tight_middle : binds tight middle = true
  tight_loose : binds tight loose = true
  middle_tight : binds middle tight = false
  middle_middle : binds middle middle = true
  middle_loose : binds middle loose = true
  loose_tight : binds loose tight = false
  loose_middle : binds loose middle = false
  loose_loose : binds loose loose = true

/-- Running values of the three levels; the tightest one includes the operand
read last. -/
structure Running (Tree : Type) where
  loose : Tree
  middle : Tree
  tight : Tree
  deriving DecidableEq, Repr

/-- The levels of a ladder. -/
inductive Level
  | loose
  | middle
  | tight
  deriving DecidableEq, Repr

namespace Running

variable (node : Level → Tree → Tree → Tree) (unit : Tree)

/-- The value of the chain read so far. -/
def value (running : Running Tree) : Tree :=
  node .loose running.loose (node .middle running.middle running.tight)

/-- One more operator and operand. -/
def step (running : Running Tree) : Level × Tree → Running Tree
  | (.tight, operand) => ⟨running.loose, running.middle, node .tight running.tight operand⟩
  | (.middle, operand) => ⟨running.loose, node .middle running.middle running.tight, operand⟩
  | (.loose, operand) => ⟨running.value node, unit, operand⟩

end Running

/-- At most one waiting operand of each level. -/
def ladderStack
    (operator : Level → Operator)
    (loose middle tight : Option Tree) : Stack Operator Tree :=
  (tight.map (·, operator .tight)).toList ++ (middle.map (·, operator .middle)).toList ++
    (loose.map (·, operator .loose)).toList

/-- A right operand joined with what waits for it on one level. -/
def joined
    (node : Tree → Tree → Tree)
    (waiting : Option Tree)
    (right : Tree) : Tree :=
  waiting.elim right fun left => node left right

theorem joined_eq_getD
    {node : Tree → Tree → Tree}
    {unit : Tree}
    (leftUnit : ∀ right, node unit right = right)
    (waiting : Option Tree)
    (right : Tree) :
    joined node waiting right = node (waiting.getD unit) right := by
  cases waiting with
  | none => exact (leftUnit right).symm
  | some left => rfl

section Push

variable {node : Operator → Tree → Tree → Tree} {binds : Operator → Operator → Bool}
  {operator : Level → Operator}

/-- A tight operator is applied to what waits on its own level only. -/
theorem push_tight
    (ladder : Ladder binds (operator .loose) (operator .middle) (operator .tight))
    (loose middle tight : Option Tree)
    (right : Tree) :
    push node binds (ladderStack operator loose middle tight) right (operator .tight) =
      ladderStack operator loose middle (some (joined (node (operator .tight)) tight right)) := by
  cases loose <;> cases middle <;> cases tight <;>
    simp [ladderStack, push, reduce, joined, ladder.tight_tight, ladder.middle_tight,
      ladder.loose_tight]

/-- A middle operator is applied behind the tight ones. -/
theorem push_middle
    (ladder : Ladder binds (operator .loose) (operator .middle) (operator .tight))
    (loose middle tight : Option Tree)
    (right : Tree) :
    push node binds (ladderStack operator loose middle tight) right (operator .middle) =
      ladderStack operator loose (some (joined (node (operator .middle)) middle
        (joined (node (operator .tight)) tight right))) none := by
  cases loose <;> cases middle <;> cases tight <;>
    simp [ladderStack, push, reduce, joined, ladder.tight_middle, ladder.middle_middle,
      ladder.loose_middle]

/-- A loose operator is applied behind all others. -/
theorem push_loose
    (ladder : Ladder binds (operator .loose) (operator .middle) (operator .tight))
    (loose middle tight : Option Tree)
    (right : Tree) :
    push node binds (ladderStack operator loose middle tight) right (operator .loose) =
      ladderStack operator (some (joined (node (operator .loose)) loose
        (joined (node (operator .middle)) middle
          (joined (node (operator .tight)) tight right)))) none none := by
  cases loose <;> cases middle <;> cases tight <;>
    simp [ladderStack, push, reduce, joined, ladder.tight_loose, ladder.middle_loose,
      ladder.loose_loose]

/-- At the end everything is applied. -/
theorem close_ladder
    (loose middle tight : Option Tree)
    (right : Tree) :
    close node (ladderStack operator loose middle tight) right =
      joined (node (operator .loose)) loose (joined (node (operator .middle)) middle
        (joined (node (operator .tight)) tight right)) := by
  cases loose <;> cases middle <;> cases tight <;> simp [ladderStack, joined]

/-- A chain over a ladder is the fold over its running values. -/
theorem chain_eq_running
    (ladder : Ladder binds (operator .loose) (operator .middle) (operator .tight))
    {looseUnit middleUnit : Tree}
    (looseLeft : ∀ right, node (operator .loose) looseUnit right = right)
    (middleLeft : ∀ right, node (operator .middle) middleUnit right = right)
    (loose middle tight : Option Tree)
    (right : Tree)
    (rest : List (Level × Tree)) :
    chain node binds (ladderStack operator loose middle tight) right
        (rest.map (Prod.map operator id)) =
      (rest.foldl (Running.step (fun level => node (operator level)) middleUnit)
        ⟨loose.getD looseUnit, middle.getD middleUnit,
          joined (node (operator .tight)) tight right⟩).value
        (fun level => node (operator level)) := by
  induction rest generalizing loose middle tight right with
  | nil =>
      rw [List.map_nil, chain, close_ladder, joined_eq_getD looseLeft, joined_eq_getD middleLeft]
      rfl
  | cons entry rest inductionHypothesis =>
      obtain ⟨level, operand⟩ := entry
      rw [List.map_cons, Prod.map, chain, List.foldl_cons]
      cases level with
      | tight =>
          rw [push_tight ladder]
          exact inductionHypothesis ..
      | middle =>
          rw [push_middle ladder, inductionHypothesis, joined_eq_getD middleLeft]
          rfl
      | loose =>
          rw [push_loose ladder, inductionHypothesis, joined_eq_getD looseLeft,
            joined_eq_getD middleLeft]
          rfl

end Push

end Precedence
end MfQuery
