import MfQuery.Lib.Lines

/-!
# Replacement

Replacing the occurrences of a pattern in one pass from left to right. When
the inserted text shares no element with the pattern, no later occurrence
touches it: the first occurrence in a text that begins with a replaced part is
the first one behind that part. Rewriting the first occurrence and starting
over, as long as there is one, therefore gives the same text.
-/

namespace MfQuery
namespace Replacement

open Lines

variable {α : Type} [DecidableEq α]

/-- One pass over a text; `skip` counts the elements of an occurrence that are
still to be passed. -/
def onePass (search replace : List α) : Nat → List α → List α
  | _, [] => []
  | skip + 1, _ :: rest => onePass search replace skip rest
  | 0, current :: rest =>
      if search.isPrefixOf (current :: rest) then
        replace ++ onePass search replace (search.length - 1) rest
      else current :: onePass search replace 0 rest

/-- Replacing the occurrences of a pattern from left to right. -/
def replaceAll (search replace text : List α) : List α := onePass search replace 0 text

section Occurrences

variable {pattern text : List α}

/-- A pattern that is not found does not occur. -/
theorem firstAt_eq_none_iff
    (nonempty : pattern ≠ []) :
    firstAt pattern text = none ↔ ¬pattern <:+: text := by
  induction text with
  | nil => simp [firstAt, nonempty]
  | cons current rest inductionHypothesis =>
      rw [firstAt, List.infix_cons_iff, not_or, ← inductionHypothesis]
      split_ifs with begins
      · simp [List.isPrefixOf_iff_prefix.mp begins]
      · rw [List.isPrefixOf_iff_prefix] at begins
        simp [begins]

/-- Where a pattern is found, it does not occur in front of it. -/
theorem exists_of_firstAt_eq_some
    (nonempty : pattern ≠ [])
    {index : Nat}
    (found : firstAt pattern text = some index) :
    ∃ before after, text = before ++ pattern ++ after ∧ before.length = index ∧
      ¬pattern <:+: before := by
  induction text generalizing index with
  | nil => cases found
  | cons current rest inductionHypothesis =>
      rw [firstAt] at found
      split_ifs at found with begins
      · cases found
        obtain ⟨after, shape⟩ := List.isPrefixOf_iff_prefix.mp begins
        exact ⟨[], after, by simpa using shape.symm, rfl, by simpa using nonempty⟩
      · obtain ⟨later, foundLater, rfl⟩ := Option.map_eq_some_iff.mp found
        obtain ⟨before, after, rfl, length, absent⟩ := inductionHypothesis foundLater
        refine ⟨current :: before, after, by simp, by simp [length], ?_⟩
        intro occurs
        rcases List.infix_cons_iff.mp occurs with front | inside
        · refine begins (List.isPrefixOf_iff_prefix.mpr (front.trans ?_))
          exact ⟨pattern ++ after, by simp⟩
        · exact absent inside

end Occurrences

/-! ## One pass -/

section OnePass

variable {search replace : List α}

theorem onePass_append
    (passed rest : List α) :
    onePass search replace passed.length (passed ++ rest) = onePass search replace 0 rest := by
  induction passed with
  | nil => rfl
  | cons current passed inductionHypothesis =>
      rw [List.length_cons, List.cons_append, onePass]
      exact inductionHypothesis

/-- A text without the pattern stays as it is. -/
theorem replaceAll_of_absent
    {text : List α}
    (absent : ¬search <:+: text) :
    replaceAll search replace text = text := by
  unfold replaceAll
  induction text with
  | nil => rfl
  | cons current rest inductionHypothesis =>
      rw [List.infix_cons_iff, not_or] at absent
      have notHere : ¬search.isPrefixOf (current :: rest) = true := by
        rw [List.isPrefixOf_iff_prefix]
        exact absent.1
      rw [onePass, if_neg notHere, inductionHypothesis absent.2]

/-- The first occurrence is replaced, and the pass goes on behind it. -/
theorem replaceAll_of_first
    (nonempty : search ≠ [])
    {before after : List α}
    (first : firstAt search (before ++ search ++ after) = some before.length) :
    replaceAll search replace (before ++ search ++ after) =
      before ++ replace ++ replaceAll search replace after := by
  unfold replaceAll
  induction before with
  | nil =>
      obtain ⟨head, tail, rfl⟩ := List.exists_cons_of_ne_nil nonempty
      have begins : (head :: tail).isPrefixOf (head :: (tail ++ after)) = true :=
        List.isPrefixOf_iff_prefix.mpr ⟨after, rfl⟩
      rw [List.nil_append, List.cons_append, onePass, if_pos begins, List.length_cons,
        Nat.add_sub_cancel, onePass_append]
      rfl
  | cons current before inductionHypothesis =>
      simp only [List.cons_append, firstAt, List.length_cons] at first ⊢
      by_cases begins : search.isPrefixOf (current :: (before ++ search ++ after)) = true
      · rw [if_pos begins] at first
        simp at first
      · rw [if_neg begins] at first
        rw [onePass, if_neg begins, inductionHypothesis (by simpa using first)]

end OnePass

/-! ## Parts no occurrence touches -/

/-- In a text that begins with the part, the first occurrence is the first one
behind the part. -/
def Passed (search part : List α) : Prop :=
  ∀ rest, firstAt search (part ++ rest) = (firstAt search rest).map (· + part.length)

namespace Passed

variable {search : List α}

theorem nil : Passed search [] := by
  intro rest
  simp

theorem append
    {first second : List α}
    (firstPassed : Passed search first)
    (secondPassed : Passed search second) :
    Passed search (first ++ second) := by
  intro rest
  rw [List.append_assoc, firstPassed, secondPassed, Option.map_map, List.length_append]
  congr 1
  funext index
  simp only [Function.comp_apply]
  omega

/-- A part without the pattern, ended by an element that is not in it. -/
theorem line
    (nonempty : search ≠ [])
    {part : List α}
    {last : α}
    (foreign : last ∉ search)
    (absent : ¬search <:+: part) :
    Passed search (part ++ [last]) := by
  intro rest
  rw [List.append_assoc, List.singleton_append, firstAt_line nonempty foreign absent,
    List.length_append, List.length_singleton]

theorem of_foreign
    (nonempty : search ≠ [])
    {part : List α}
    (foreign : ∀ element ∈ part, element ∉ search) :
    Passed search part := by
  induction part with
  | nil => exact nil
  | cons element part inductionHypothesis =>
      have here : Passed search ([] ++ [element]) :=
        line nonempty (foreign element (List.mem_cons_self ..)) (by simpa using nonempty)
      exact here.append
        (inductionHypothesis fun other member => foreign other (List.mem_cons_of_mem _ member))

/-- A part without the pattern in front of foreign elements. -/
theorem append_foreign
    (nonempty : search ≠ [])
    {part inserted : List α}
    (absent : ¬search <:+: part)
    (present : inserted ≠ [])
    (foreign : ∀ element ∈ inserted, element ∉ search) :
    Passed search (part ++ inserted) := by
  obtain ⟨element, inserted, rfl⟩ := List.exists_cons_of_ne_nil present
  have here := line nonempty (foreign element (List.mem_cons_self ..)) absent
  have later : Passed search inserted :=
    of_foreign nonempty fun other member => foreign other (List.mem_cons_of_mem _ member)
  simpa using here.append later

end Passed

end Replacement
end MfQuery
