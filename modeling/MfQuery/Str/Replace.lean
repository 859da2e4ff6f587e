import Mathlib.Data.Bool.AllAny
import MfQuery.Lib.Replacement
import MfQuery.Str

/-!
# Replacing in strings

`str_replace` rewrites the first occurrence of a string and calls itself on
the whole result. When the replacement shares no character with what is
searched, the calls end and give the one pass from left to right.
-/

namespace MfQuery

open Text Lines Replacement

theorem find_eq_firstAt (data part : Text) : find data part = firstAt part data := by
  induction data with
  | nil => rfl
  | cons current data inductionHypothesis =>
      rw [find] at inductionHypothesis
      rw [find, strposM, firstAt, inductionHypothesis]
      simp

/-- What `str_replace` returns does not contain the searched string. -/
theorem find_eq_none_of_strReplaceLoop
    {search replace : Text}
    {fuel : Nat}
    {subject result : Text}
    (returned : strReplaceLoop search replace fuel subject = some result) :
    find result search = none := by
  induction fuel generalizing subject with
  | zero => cases returned
  | succ fuel inductionHypothesis =>
      rw [strReplaceLoop] at returned
      cases found : find subject search with
      | none =>
          rw [found] at returned
          cases returned
          exact found
      | some start =>
          rw [found] at returned
          exact inductionHypothesis returned

section Disjoint

variable {search replace : Text}

/-- Behind a part no occurrence touches, the calls replace what one pass
replaces: every call leaves less text behind the last replacement. -/
theorem strReplaceLoop_passed
    (searchNonempty : search ≠ [])
    (replaceNonempty : replace ≠ [])
    (disjoint : ∀ character ∈ replace, character ∉ search)
    {fuel : Nat}
    {passed rest : Text}
    (isPassed : Passed search passed)
    (enough : rest.length < fuel) :
    strReplaceLoop search replace fuel (passed ++ rest) =
      some (passed ++ replaceAll search replace rest) := by
  induction fuel generalizing passed rest with
  | zero => omega
  | succ fuel inductionHypothesis =>
      rw [strReplaceLoop, find_eq_firstAt, isPassed]
      cases found : firstAt search rest with
      | none =>
          have absent := (firstAt_eq_none_iff searchNonempty).mp found
          rw [replaceAll_of_absent absent]
          rfl
      | some start =>
          obtain ⟨before, after, rfl, rfl, absent⟩ := exists_of_firstAt_eq_some searchNonempty found
          have positive := List.length_pos_iff.mpr searchNonempty
          simp only [List.length_append] at enough
          have untouched : Passed search (passed ++ (before ++ replace)) :=
            isPassed.append (.append_foreign searchNonempty absent replaceNonempty disjoint)
          have later : strReplaceLoop search replace fuel (passed ++ (before ++ replace) ++ after) =
              some (passed ++ (before ++ replace) ++ replaceAll search replace after) :=
            inductionHypothesis untouched (by omega)
          have front : (passed ++ (before ++ search ++ after)).take
              (before.length + passed.length) = passed ++ before := by
            rw [List.append_assoc before, ← List.append_assoc passed]
            exact List.take_left' (by rw [List.length_append]; omega)
          have behind : (passed ++ (before ++ search ++ after)).drop
              (before.length + passed.length + search.length) = after := by
            rw [← List.append_assoc passed, ← List.append_assoc passed]
            exact List.drop_left' (by simp only [List.length_append]; omega)
          rw [replaceAll_of_first searchNonempty found, Option.map_some]
          simp only [front, behind]
          simpa only [List.append_assoc] using later

theorem strReplace_eq_replaceAll
    (searchNonempty : search ≠ [])
    (replaceNonempty : replace ≠ [])
    (disjoint : ∀ character ∈ replace, character ∉ search)
    (subject : Text) :
    strReplace search replace subject = some (replaceAll search replace subject) :=
  strReplaceLoop_passed searchNonempty replaceNonempty disjoint .nil (Nat.lt_succ_self _)

end Disjoint

/-- The calls of `str_replace` end, within one more than the subject has
characters, and give the one pass from left to right; the searched string does
not occur in the result. -/
theorem str_replace_one_pass
    (search replace subject : Text)
    (searchNonempty : search ≠ [])
    (replaceNonempty : replace ≠ [])
    (disjoint : ∀ character ∈ replace, character ∉ search) :
    strReplace search replace subject = some (replaceAll search replace subject) ∧
      ¬search <:+: replaceAll search replace subject := by
  have returned := strReplace_eq_replaceAll searchNonempty replaceNonempty disjoint subject
  refine ⟨returned, ?_⟩
  have absent := find_eq_none_of_strReplaceLoop returned
  rw [find_eq_firstAt] at absent
  exact (firstAt_eq_none_iff searchNonempty).mp absent

/-- Overlapping occurrences are replaced from the left. -/
theorem str_replace_one_pass_overlapping :
    strReplace "aba" "xy" "ababab" = some ("xybab" : Text) := by
  have disjoint : ∀ character ∈ ("xy" : Text), character ∉ ("aba" : Text) :=
    List.all_iff_forall_prop.mp (by decide)
  have replaced := (str_replace_one_pass "aba" "xy" "ababab" (by decide) (by decide) disjoint).1
  rw [replaced]
  rfl

end MfQuery
