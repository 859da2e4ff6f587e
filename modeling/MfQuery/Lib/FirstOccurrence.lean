import Mathlib.Data.List.Nodup
import Mathlib.Data.List.Perm.Basic
import Mathlib.Tactic

/-!
# First occurrences by key

Walking a list and keeping an element only when no kept element has its key
leaves the first element of every key, in order of first appearance. The
position of a key among the kept elements is then well defined.
-/

namespace MfQuery

variable {α κ : Type} [DecidableEq κ]

/-- Keep an element unless a kept one has its key. -/
def keepFirst (key : α → κ) (out : List α) (entry : α) : List α :=
  if key entry ∈ out.map key then out else out ++ [entry]

/-- The first element of every key. -/
def firsts (key : α → κ) (entries : List α) : List α :=
  entries.foldl (keepFirst key) []

/-- Position of a key among the elements of a list. -/
def keyIndex (key : α → κ) (entries : List α) (k : κ) : Nat :=
  (entries.map key).idxOf k

namespace FirstOccurrence

variable (key : α → κ)

@[simp] theorem firsts_nil : firsts key ([] : List α) = [] := rfl

/-- Reading one more element at the end. -/
theorem firsts_concat
    (entries : List α)
    (entry : α) :
    firsts key (entries ++ [entry]) = keepFirst key (firsts key entries) entry := by
  simp [firsts, List.foldl_append]

/-- A key occurs among the kept elements exactly when it occurs at all. -/
theorem mem_map_firsts
    (entries : List α)
    (k : κ) :
    k ∈ (firsts key entries).map key ↔ k ∈ entries.map key := by
  induction entries using List.reverseRecOn generalizing k with
  | nil => simp
  | append_singleton entries entry inductionHypothesis =>
      rw [firsts_concat, keepFirst]
      split_ifs with present
      · rw [inductionHypothesis] at present
        rw [inductionHypothesis, List.map_append, List.mem_append]
        constructor
        · exact Or.inl
        · rintro (earlier | last)
          · exact earlier
          · rw [List.map_singleton, List.mem_singleton] at last
            rw [last]
            exact present
      · rw [List.map_append, List.map_append, List.mem_append, List.mem_append,
          inductionHypothesis]

/-- Kept elements have pairwise different keys. -/
theorem nodup_map_firsts (entries : List α) : ((firsts key entries).map key).Nodup := by
  induction entries using List.reverseRecOn with
  | nil => simp
  | append_singleton entries entry inductionHypothesis =>
      rw [firsts_concat, keepFirst]
      split_ifs with present
      · exact inductionHypothesis
      · rw [List.map_append]
        refine inductionHypothesis.append (by simp) ?_
        intro k earlier last
        rw [List.map_singleton, List.mem_singleton] at last
        rw [last] at earlier
        exact present earlier

/-- Kept elements stand in the order of the list. -/
theorem firsts_sublist (entries : List α) : (firsts key entries).Sublist entries := by
  induction entries using List.reverseRecOn with
  | nil => simp
  | append_singleton entries entry inductionHypothesis =>
      rw [firsts_concat, keepFirst]
      split_ifs with present
      · exact inductionHypothesis.trans (List.sublist_append_left ..)
      · exact inductionHypothesis.append (List.Sublist.refl _)

/-- Elements with pairwise different keys are all kept. -/
theorem firsts_eq_self
    {entries : List α}
    (nodup : (entries.map key).Nodup) :
    firsts key entries = entries := by
  induction entries using List.reverseRecOn with
  | nil => rfl
  | append_singleton entries entry inductionHypothesis =>
      rw [List.map_append, List.map_singleton, List.nodup_append] at nodup
      obtain ⟨nodupBefore, -, different⟩ := nodup
      have absent : key entry ∉ entries.map key := fun member =>
        different (key entry) member (key entry) (by simp) rfl
      rw [firsts_concat, inductionHypothesis nodupBefore, keepFirst, if_neg absent]

/-- Searching a key finds the same element in the list and among the kept
elements. -/
theorem find?_firsts
    (entries : List α)
    (k : κ) :
    (firsts key entries).find? (fun entry => key entry = k) =
      entries.find? (fun entry => key entry = k) := by
  induction entries using List.reverseRecOn with
  | nil => simp
  | append_singleton entries entry inductionHypothesis =>
      rw [firsts_concat, keepFirst, List.find?_append, ← inductionHypothesis]
      split_ifs with present
      · cases found : (firsts key entries).find? (fun entry => key entry = k) with
        | some value => rfl
        | none =>
            rw [List.find?_eq_none] at found
            have absent : key entry ≠ k := by
              rintro rfl
              obtain ⟨other, member, same⟩ := List.mem_map.mp present
              exact found other member (by simpa using same)
            simp [absent]
      · rw [List.find?_append]

/-- Every kept element is the first of its key. -/
theorem find?_of_mem_firsts
    {entries : List α}
    {entry : α}
    (member : entry ∈ firsts key entries) :
    entries.find? (fun other => key other = key entry) = some entry := by
  rw [← find?_firsts]
  obtain ⟨before, after, shape⟩ := List.append_of_mem member
  have nodup := nodup_map_firsts key entries
  rw [shape] at nodup ⊢
  rw [List.find?_append]
  have none : before.find? (fun other => key other = key entry) = none := by
    rw [List.find?_eq_none]
    intro other earlier same
    simp only [decide_eq_true_eq] at same
    rw [List.map_append, List.map_cons, List.nodup_append] at nodup
    exact nodup.2.2 (key other) (List.mem_map_of_mem earlier) (key entry)
      (List.mem_cons_self ..) same
  rw [none]
  simp

/-- Kept elements stand in the order in which their keys first appear. -/
theorem pairwise_keyIndex_firsts (entries : List α) :
    ((firsts key entries).map fun entry => keyIndex key entries (key entry)).Pairwise
      (· < ·) := by
  unfold keyIndex
  induction entries using List.reverseRecOn with
  | nil => simp
  | append_singleton entries entry inductionHypothesis =>
      have unchanged : ∀ other ∈ firsts key entries,
          ((entries ++ [entry]).map key).idxOf (key other) =
            (entries.map key).idxOf (key other) := by
        intro other member
        rw [List.map_append, List.idxOf_append_of_mem]
        exact (mem_map_firsts key entries _).mp (List.mem_map_of_mem member)
      have earlier : (firsts key entries).map
          (fun other => ((entries ++ [entry]).map key).idxOf (key other)) =
            (firsts key entries).map fun other => (entries.map key).idxOf (key other) :=
        List.map_congr_left unchanged
      rw [firsts_concat, keepFirst]
      split_ifs with present
      · rw [earlier]
        exact inductionHypothesis
      · rw [List.map_append, earlier, List.pairwise_append]
        refine ⟨inductionHypothesis, by simp, fun position before last isLast => ?_⟩
        obtain ⟨other, member, rfl⟩ := List.mem_map.mp before
        rw [List.map_singleton, List.mem_singleton] at isLast
        have occurs := (mem_map_firsts key entries _).mp (List.mem_map_of_mem member)
        have below := List.idxOf_lt_length_of_mem occurs
        rw [mem_map_firsts] at present
        rw [isLast, List.map_append, List.idxOf_append_of_notMem present]
        omega

/-- The position of a key that occurs is a position among the kept elements. -/
theorem keyIndex_firsts_lt
    {entries : List α}
    {k : κ}
    (member : k ∈ entries.map key) :
    keyIndex key (firsts key entries) k < (firsts key entries).length := by
  have kept := (mem_map_firsts key entries k).mpr member
  simpa [keyIndex] using List.idxOf_lt_length_of_mem kept

/-- The element at the position of a key has that key. -/
theorem key_getElem_keyIndex
    {entries : List α}
    {k : κ}
    (inside : keyIndex key entries k < entries.length) :
    key (entries.get ⟨keyIndex key entries k, inside⟩) = k := by
  have bound : (entries.map key).idxOf k < (entries.map key).length := by
    simpa [keyIndex] using inside
  have found := List.getElem_idxOf bound
  rw [List.getElem_map] at found
  exact found

/-- The kept element at the position of a key that occurs. -/
theorem exists_getElem?_keyIndex
    {entries : List α}
    {k : κ}
    (member : k ∈ entries.map key) :
    ∃ kept, (firsts key entries)[keyIndex key (firsts key entries) k]? = some kept ∧
      key kept = k := by
  have inside := keyIndex_firsts_lt key member
  exact ⟨_, List.getElem?_eq_getElem inside, key_getElem_keyIndex key inside⟩

/-- Positions of pairwise different keys. -/
theorem keyIndex_getElem
    {entries : List α}
    (nodup : (entries.map key).Nodup)
    {position : Nat}
    (inside : position < entries.length) :
    keyIndex key entries (key (entries.get ⟨position, inside⟩)) = position := by
  have bound : position < (entries.map key).length := by simpa using inside
  have found := nodup.idxOf_getElem position bound
  simpa [keyIndex] using found

/-- A key that occurs has a position. -/
theorem keyIndex_lt
    {entries : List α}
    {k : κ}
    (member : k ∈ entries.map key) :
    keyIndex key entries k < entries.length := by
  simpa [keyIndex] using List.idxOf_lt_length_of_mem member

/-- Searching with a comparison of keys finds the position of the key. -/
theorem findIdx?_eq_keyIndex
    {entries : List α}
    {k : κ}
    {test : α → Bool}
    (compares : ∀ entry ∈ entries, test entry = true ↔ key entry = k) :
    entries.findIdx? test =
      if k ∈ entries.map key then some (keyIndex key entries k) else none := by
  unfold keyIndex
  induction entries with
  | nil => rfl
  | cons entry rest inductionHypothesis =>
      rw [List.forall_mem_cons] at compares
      rw [List.findIdx?_cons, List.map_cons]
      by_cases same : key entry = k
      · rw [if_pos (compares.1.mpr same), if_pos (by simp [same]), same, List.idxOf_cons_self]
      · have skipped : ¬ test entry = true := fun holds => same (compares.1.mp holds)
        rw [if_neg skipped, inductionHypothesis compares.2, List.idxOf_cons_ne _ same]
        by_cases later : k ∈ rest.map key
        · rw [if_pos later, if_pos (List.mem_cons_of_mem _ later)]
          rfl
        · have absent : k ∉ key entry :: rest.map key := by
            rw [List.mem_cons, not_or]
            exact ⟨fun equal => same equal.symm, later⟩
          rw [if_neg later, if_neg absent]
          rfl

/-- Permuted lists keep elements of the same keys. -/
theorem map_firsts_perm
    {left right : List α}
    (permuted : left.Perm right) :
    ((firsts key left).map key).Perm ((firsts key right).map key) := by
  rw [List.perm_ext_iff_of_nodup (nodup_map_firsts key left) (nodup_map_firsts key right)]
  intro k
  rw [mem_map_firsts, mem_map_firsts]
  exact (permuted.map key).mem_iff

theorem length_firsts_of_perm
    {left right : List α}
    (permuted : left.Perm right) :
    (firsts key left).length = (firsts key right).length := by
  simpa using (map_firsts_perm key permuted).length_eq

/-- What is computed from the kept elements of permuted lists, and agrees on
elements of the same key, is permuted. -/
theorem filterMap_firsts_perm
    {β : Type}
    {left right : List α}
    (permuted : left.Perm right)
    {leftResult rightResult : α → Option β}
    (agree : ∀ first ∈ firsts key left, ∀ second ∈ firsts key right,
      key first = key second → leftResult first = rightResult second) :
    ((firsts key left).filterMap leftResult).Perm
      ((firsts key right).filterMap rightResult) := by
  -- both sides are read off the keys, through the kept element of the key on the left
  let result (k : κ) : Option β :=
    ((firsts key left).find? fun entry => key entry = k).bind leftResult
  have onLeft : (firsts key left).filterMap leftResult =
      ((firsts key left).map key).filterMap result := by
    rw [List.filterMap_map]
    apply List.filterMap_congr
    intro entry member
    simp only [result, Function.comp_apply, find?_firsts, find?_of_mem_firsts key member,
      Option.bind_some]
  have onRight : (firsts key right).filterMap rightResult =
      ((firsts key right).map key).filterMap result := by
    rw [List.filterMap_map]
    apply List.filterMap_congr
    intro entry member
    have occurs : key entry ∈ (firsts key left).map key :=
      (map_firsts_perm key permuted).mem_iff.mpr (List.mem_map_of_mem member)
    obtain ⟨other, kept, sameKey⟩ := List.mem_map.mp occurs
    simp only [result, Function.comp_apply, ← sameKey, find?_firsts,
      find?_of_mem_firsts key kept, Option.bind_some]
    exact (agree other kept entry member sameKey).symm
  rw [onLeft, onRight]
  exact (map_firsts_perm key permuted).filterMap result

end FirstOccurrence
end MfQuery
