import Mathlib.Data.List.Basic
import Mathlib.Tactic

/-!
# Scattered updates

A scan visits entries one after the other, and each entry updates at most one
position of a vector. After the scan, every position holds its initial value
folded over exactly the entries that targeted it, in their order. Read from
the side of the positions this is a gathering: the owner of each position
collects the entries it selects.
-/

namespace MfQuery

variable {α β ρ : Type}

/-- Update the target position of one entry. -/
def scatterStep
    (target : α → Option Nat)
    (update : α → β → β)
    (vector : List β)
    (entry : α) : List β :=
  match target entry with
  | none => vector
  | some position => vector.modify position (update entry)

/-- Update the target positions of all entries. -/
def scatter
    (target : α → Option Nat)
    (update : α → β → β)
    (entries : List α)
    (vector : List β) : List β :=
  entries.foldl (scatterStep target update) vector

/-- Every owner folds its own value over the entries it selects. -/
def gather
    (selects : ρ → α → Bool)
    (update : α → β → β)
    (entries : List α)
    (owners : List ρ)
    (vector : List β) : List β :=
  List.zipWith (fun owner initial =>
    (entries.filter (selects owner)).foldl (fun value entry => update entry value) initial)
    owners vector

namespace Scatter

variable (target : α → Option Nat) (update : α → β → β)

@[simp] theorem length_scatterStep
    (vector : List β)
    (entry : α) :
    (scatterStep target update vector entry).length = vector.length := by
  unfold scatterStep
  split <;> simp

@[simp] theorem length_scatter
    (entries : List α)
    (vector : List β) :
    (scatter target update entries vector).length = vector.length := by
  induction entries generalizing vector with
  | nil => rfl
  | cons entry entries inductionHypothesis =>
      have later := inductionHypothesis (scatterStep target update vector entry)
      simpa [scatter] using later

theorem scatter_concat
    (entries : List α)
    (entry : α)
    (vector : List β) :
    scatter target update (entries ++ [entry]) vector =
      scatterStep target update (scatter target update entries vector) entry := by
  simp [scatter]

/-- Each position is folded over the entries that target it. -/
theorem getElem?_scatter
    (entries : List α)
    (vector : List β)
    (position : Nat) :
    (scatter target update entries vector)[position]? =
      vector[position]?.map fun initial =>
        (entries.filter fun entry => target entry = some position).foldl
          (fun value entry => update entry value) initial := by
  induction entries generalizing vector with
  | nil => simp [scatter]
  | cons entry entries inductionHypothesis =>
      have later := inductionHypothesis (scatterStep target update vector entry)
      have unfolded : scatter target update (entry :: entries) vector =
          scatter target update entries (scatterStep target update vector entry) := rfl
      rw [unfolded, later, List.filter_cons]
      unfold scatterStep
      cases found : target entry with
      | none => simp
      | some other =>
          by_cases same : other = position
          · subst other
            simp [Function.comp_def]
          · simp [same]

/-- A scan whose entries all target one position folds that position. -/
theorem scatter_const
    {entries : List α}
    {position : Nat}
    (admits : α → Bool)
    (vector : List β) :
    scatter (fun entry => if admits entry then some position else none) update entries vector =
      vector.modify position fun initial =>
        (entries.filter admits).foldl (fun value entry => update entry value) initial := by
  apply List.ext_getElem?
  intro other
  rw [getElem?_scatter, List.getElem?_modify]
  by_cases same : position = other
  · subst other
    simp only [if_true]
    congr 1
    funext initial
    congr 2
    funext entry
    cases admits entry <;> simp
  · have never : ∀ entry ∈ entries,
        ¬decide ((if admits entry then some position else none) = some other) = true := by
      intro entry _
      cases admits entry <;> simp [same]
    rw [List.filter_eq_nil_iff.mpr never]
    simp [same]

/-- Scattering to the owners that select an entry is gathering. -/
theorem scatter_eq_gather
    {selects : ρ → α → Bool}
    {entries : List α}
    {owners : List ρ}
    {vector : List β}
    (sameLength : owners.length = vector.length)
    (targets : ∀ position (inside : position < owners.length), ∀ entry ∈ entries,
      (target entry = some position ↔ selects (owners.get ⟨position, inside⟩) entry = true)) :
    scatter target update entries vector = gather selects update entries owners vector := by
  apply List.ext_getElem?
  intro position
  rw [getElem?_scatter, gather, List.getElem?_zipWith]
  by_cases inside : position < owners.length
  · have inVector : position < vector.length := sameLength ▸ inside
    have selected : entries.filter (fun entry => target entry = some position) =
        entries.filter (selects owners[position]) := by
      refine List.filter_congr fun entry member => ?_
      rw [Bool.eq_iff_iff, decide_eq_true_eq]
      exact targets position inside entry member
    rw [List.getElem?_eq_getElem inside, List.getElem?_eq_getElem inVector, selected]
    rfl
  · have outside : ¬position < vector.length := sameLength ▸ inside
    rw [List.getElem?_eq_none (by omega), List.getElem?_eq_none (by omega)]
    rfl

/-- Gathering for one more owner. -/
theorem gather_concat
    (selects : ρ → α → Bool)
    (entries : List α)
    {owners : List ρ}
    {vector : List β}
    (sameLength : owners.length = vector.length)
    (owner : ρ)
    (initial : β) :
    gather selects update entries (owners ++ [owner]) (vector ++ [initial]) =
      gather selects update entries owners vector ++
        [(entries.filter (selects owner)).foldl (fun value entry => update entry value)
          initial] := by
  rw [gather, List.zipWith_append sameLength]
  rfl

theorem length_gather
    (selects : ρ → α → Bool)
    (entries : List α)
    {owners : List ρ}
    {vector : List β}
    (sameLength : owners.length = vector.length) :
    (gather selects update entries owners vector).length = vector.length := by
  simp [gather, sameLength]

theorem modify_append_cons
    (front back : List β)
    (value : β)
    (f : β → β) :
    (front ++ value :: back).modify front.length f = front ++ f value :: back := by
  induction front with
  | nil => rfl
  | cons first front inductionHypothesis => simpa using inductionHypothesis

/-- Gathering owner by owner: the next owner modifies its own position. -/
theorem modify_gather_append_drop
    (selects : ρ → α → Bool)
    (entries : List α)
    (owners : List ρ)
    (owner : ρ)
    {vector : List β}
    (below : owners.length < vector.length) :
    (gather selects update entries owners (vector.take owners.length) ++
        vector.drop owners.length).modify owners.length
          (fun initial => (entries.filter (selects owner)).foldl
            (fun value entry => update entry value) initial) =
      gather selects update entries (owners ++ [owner]) (vector.take (owners.length + 1)) ++
        vector.drop (owners.length + 1) := by
  have taken : owners.length = (vector.take owners.length).length := by
    rw [List.length_take]
    omega
  have gathered := length_gather update selects entries taken
  rw [← taken] at gathered
  rw [List.drop_eq_getElem_cons below, List.take_add_one, List.getElem?_eq_getElem below,
    Option.toList_some, gather_concat update selects entries taken]
  have modified := modify_append_cons
    (gather selects update entries owners (vector.take owners.length))
    (vector.drop (owners.length + 1)) vector[owners.length]
    (fun initial => (entries.filter (selects owner)).foldl
      (fun value entry => update entry value) initial)
  rw [gathered] at modified
  rw [modified, List.append_assoc]
  rfl

end Scatter
end MfQuery
