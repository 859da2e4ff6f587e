import Mathlib.Tactic

/-!
# Failures

A call returns, throws, or uses a null pointer. Sequences of calls are read
backwards: what a whole sequence does is what one of its calls does after the
ones before it have returned.
-/

namespace MfQuery

/-- How a call can fail. -/
inductive Failure where
  | thrown
  | nullPointer
  deriving DecidableEq, Repr

/-- Using a pointer. -/
def deref {Value : Type} : Option Value → Except Failure Value
  | none => .error .nullPointer
  | some value => .ok value

/-- A call that throws where its model has no result. -/
def orThrow {Value : Type} : Option Value → Except Failure Value
  | none => .error .thrown
  | some value => .ok value

variable {Value Result : Type} {next : Value → Except Failure Result}

theorem bind_eq_ok_iff
    {call : Except Failure Value}
    {result : Result} :
    (call >>= next) = .ok result ↔ ∃ value, call = .ok value ∧ next value = .ok result := by
  cases call with
  | error failure =>
      constructor
      · intro impossible
        cases impossible
      · rintro ⟨value, impossible, -⟩
        cases impossible
  | ok value =>
      constructor
      · intro returns
        exact ⟨value, rfl, returns⟩
      · rintro ⟨_, ⟨⟩, returns⟩
        exact returns

theorem bind_eq_null_iff
    {call : Except Failure Value} :
    (call >>= next) = .error .nullPointer ↔
      call = .error .nullPointer ∨ ∃ value, call = .ok value ∧ next value = .error .nullPointer := by
  cases call with
  | error failure => simp [bind, Except.bind]
  | ok value => simp [bind, Except.bind]

theorem deref_eq_null_iff
    {pointer : Option Value} :
    deref pointer = .error .nullPointer ↔ pointer = none := by
  cases pointer with
  | none => simp [deref]
  | some value => simp [deref]

theorem deref_eq_ok_iff
    {pointer : Option Value}
    {value : Value} :
    deref pointer = .ok value ↔ pointer = some value := by
  cases pointer with
  | none => simp [deref]
  | some value => simp [deref]

theorem orThrow_ne_null (result : Option Value) : orThrow result ≠ .error .nullPointer := by
  cases result with
  | none => simp [orThrow]
  | some value => simp [orThrow]

theorem orThrow_eq_ok_iff
    {result : Option Value}
    {value : Value} :
    orThrow result = .ok value ↔ result = some value := by
  cases result with
  | none => simp [orThrow]
  | some value => simp [orThrow]

/-- Behind a call that may throw, only what follows can use a null pointer. -/
theorem orThrow_bind_eq_null_iff
    {result : Option Value} :
    (orThrow result >>= next) = .error .nullPointer ↔
      ∃ value, result = some value ∧ next value = .error .nullPointer := by
  simp only [bind_eq_null_iff, orThrow_ne_null, orThrow_eq_ok_iff, false_or]

end MfQuery
