import Mathlib.Data.List.Basic
import Mathlib.Tactic

/-!
# Loops that erase at their iterator

A loop walks a vector by position. Its body looks at the entry under the
iterator and either replaces it, or erases it and steps the iterator back
before the loop increment, so that the entry that moved up is visited next.
The position is an integer because stepping back from the first entry goes to
minus one.
-/

namespace MfQuery

variable {σ α : Type}

/-- A state of the loop, with a log of the entries it has looked at. -/
structure EraseLoop (σ α : Type) where
  state : σ
  vector : List α
  position : Int
  examined : List α

namespace EraseLoop

/-- One turn: the body fails, erases the entry, or replaces it. -/
def step
    (body : σ → α → Option (σ × Option α))
    (loop : EraseLoop σ α) : Option (EraseLoop σ α) := do
  let entry ← if 0 ≤ loop.position then loop.vector[loop.position.toNat]? else none
  let (state, outcome) ← body loop.state entry
  match outcome with
  | none => return {
      state
      vector := loop.vector.eraseIdx loop.position.toNat
      position := loop.position - 1 + 1
      examined := loop.examined ++ [entry] }
  | some new => return {
      state
      vector := loop.vector.set loop.position.toNat new
      position := loop.position + 1
      examined := loop.examined ++ [entry] }

/-- Turns until the iterator reaches the end, at most `fuel` loop tests. -/
def run (body : σ → α → Option (σ × Option α)) : Nat → EraseLoop σ α → Option (EraseLoop σ α)
  | 0, _ => none
  | fuel + 1, loop =>
      if loop.position = loop.vector.length then some loop
      else (step body loop).bind (run body fuel)

/-- The loop before its first turn. -/
def start (state : σ) (entries : List α) : EraseLoop σ α := ⟨state, entries, 0, []⟩

/-- One turn at the first of the entries still to be visited. -/
theorem step_append_cons
    {body : σ → α → Option (σ × Option α)}
    {state : σ}
    {outcome : α → Option α}
    (kept visited rest : List α)
    {entry : α}
    (pure : body state entry = some (state, outcome entry)) :
    step body ⟨state, kept ++ entry :: rest, kept.length, visited⟩ =
      some ⟨state, kept ++ (outcome entry).toList ++ rest,
        (kept ++ (outcome entry).toList).length, visited ++ [entry]⟩ := by
  have here : (kept ++ entry :: rest)[(kept.length : Int).toNat]? = some entry := by simp
  rw [step]
  simp only [Int.natCast_nonneg, if_true, here, Option.bind_eq_bind, Option.bind_some, pure]
  cases outcome entry with
  | none => simp [List.eraseIdx_append_of_length_le]
  | some new => simp

/-- With a body that leaves the state alone the loop ends, has looked at every
entry once and in order, and keeps what the body kept. -/
theorem run_eq
    {body : σ → α → Option (σ × Option α)}
    {state : σ}
    {outcome : α → Option α}
    {entries : List α}
    (pure : ∀ entry ∈ entries, body state entry = some (state, outcome entry))
    {fuel : Nat}
    (enough : entries.length < fuel) :
    run body fuel (start state entries) =
      some ⟨state, entries.filterMap outcome, (entries.filterMap outcome).length, entries⟩ := by
  -- the visited entries have been filtered, the others still stand behind them
  suffices general : ∀ (rest visited : List α) (fuel : Nat), visited ++ rest = entries →
      rest.length < fuel →
      run body fuel ⟨state, visited.filterMap outcome ++ rest,
        (visited.filterMap outcome).length, visited⟩ =
      some ⟨state, entries.filterMap outcome, (entries.filterMap outcome).length, entries⟩ by
    exact general entries [] fuel rfl enough
  intro rest
  induction rest with
  | nil =>
      intro visited fuel shape enough
      obtain ⟨fuel, rfl⟩ := Nat.exists_eq_succ_of_ne_zero (Nat.ne_of_gt enough)
      rw [List.append_nil] at shape
      subst visited
      simp [run]
  | cons entry rest inductionHypothesis =>
      intro visited fuel shape enough
      obtain ⟨fuel, rfl⟩ := Nat.exists_eq_succ_of_ne_zero (Nat.ne_of_gt (Nat.zero_lt_of_lt enough))
      have member : entry ∈ entries := by simp [← shape]
      have stepped := step_append_cons (visited.filterMap outcome) visited rest
        (pure entry member)
      have later := inductionHypothesis (visited ++ [entry]) fuel (by simpa using shape)
        (by simpa using enough)
      have filtered : (visited ++ [entry]).filterMap outcome =
          visited.filterMap outcome ++ (outcome entry).toList := by
        cases kept : outcome entry <;> simp [kept]
      have notEnd : ((visited.filterMap outcome).length : Int) ≠
          (visited.filterMap outcome ++ entry :: rest).length := by
        simp only [List.length_append, List.length_cons]
        omega
      rw [run, if_neg notEnd, stepped, Option.bind_some, ← later, filtered]

end EraseLoop
end MfQuery
