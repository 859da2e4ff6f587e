import Mathlib.Tactic

/-!
# Iteration

A loop is given by one round: from a state it fails, goes on from another
state, or is done. Running it takes fuel, and the loop returns a result when
some amount of fuel is enough. A loop whose rounds keep an invariant and make
a measure smaller returns.
-/

namespace MfQuery

/-- What one round of a loop does. -/
inductive Round (State Result : Type)
  | failed
  | next (state : State)
  | done (result : Result)
  deriving DecidableEq, Repr

namespace Round

variable {State Result : Type}

/-- Rounds until the loop is done, at most as many as there is fuel. -/
def run (round : State → Round State Result) : Nat → State → Option Result
  | 0, _ => none
  | fuel + 1, state =>
      match round state with
      | .failed => none
      | .next later => run round fuel later
      | .done result => some result

/-- The loop is done after finitely many rounds, none of which fails. -/
def Returns (round : State → Round State Result) (state : State) (result : Result) : Prop :=
  ∃ fuel, run round fuel state = some result

variable {round : State → Round State Result} {state later : State} {result : Result}

theorem run_done
    (isDone : round state = .done result)
    (fuel : Nat) :
    run round (fuel + 1) state = some result := by
  rw [run, isDone]

theorem run_next
    (goesOn : round state = .next later)
    (fuel : Nat) :
    run round (fuel + 1) state = run round fuel later := by
  rw [run, goesOn]

/-- More fuel does not change the result. -/
theorem run_of_le
    {fuel more : Nat}
    (returned : run round fuel state = some result)
    (enough : fuel ≤ more) :
    run round more state = some result := by
  induction fuel generalizing state more with
  | zero => cases returned
  | succ fuel inductionHypothesis =>
      obtain ⟨more, rfl⟩ : ∃ less, more = less + 1 := ⟨more - 1, by omega⟩
      rw [run] at returned ⊢
      cases happens : round state with
      | failed =>
          rw [happens] at returned
          cases returned
      | next later =>
          rw [happens] at returned
          exact inductionHypothesis returned (by omega)
      | done result =>
          rw [happens] at returned
          exact returned

/-- Total correctness of a loop. -/
theorem exists_returns
    (invariant : State → Prop)
    (size : State → Nat)
    (post : Result → Prop)
    (step : ∀ state, invariant state →
      (∃ later, round state = .next later ∧ invariant later ∧ size later < size state) ∨
        ∃ result, round state = .done result ∧ post result)
    (state : State)
    (holds : invariant state) :
    ∃ result, Returns round state result ∧ post result := by
  induction measured : size state using Nat.strong_induction_on generalizing state with
  | _ bound inductionHypothesis =>
      subst measured
      rcases step state holds with ⟨later, goesOn, kept, smaller⟩ | ⟨result, isDone, holdsOf⟩
      · obtain ⟨result, ⟨fuel, returned⟩, holdsOf⟩ := inductionHypothesis _ smaller later kept rfl
        exact ⟨result, ⟨fuel + 1, (run_next goesOn fuel).trans returned⟩, holdsOf⟩
      · exact ⟨result, ⟨1, run_done isDone 0⟩, holdsOf⟩

end Round
end MfQuery
