import Mathlib.Data.List.Forall2

/-!
# Mapping a partial function over a list

A list is mapped by a function that may fail; the whole fails where one entry
does. Entries and results stand at the same places.
-/

namespace MfQuery

variable {Source Target : Type} {function : Source → Option Target} {list : List Source}
  {results : List Target}

theorem mapM_eq_some_map
    {result : Source → Target}
    (each : ∀ entry ∈ list, function entry = some (result entry)) :
    list.mapM function = some (list.map result) := by
  induction list with
  | nil => rfl
  | cons entry list inductionHypothesis =>
      have later := inductionHypothesis
        fun other member => each other (List.mem_cons_of_mem _ member)
      simp [each entry (List.mem_cons_self ..), later]

theorem mapM_eq_some_map_iff
    {result : Source → Target} :
    list.mapM function = some (list.map result) ↔
      ∀ entry ∈ list, function entry = some (result entry) := by
  refine ⟨fun mapped => ?_, mapM_eq_some_map⟩
  induction list with
  | nil => simp
  | cons first list inductionHypothesis =>
      simp only [List.mapM_cons, List.map_cons, Option.pure_def, Option.bind_eq_bind,
        Option.bind_eq_some_iff, Option.some.injEq, List.cons.injEq] at mapped
      obtain ⟨_, here, _, later, rfl, rfl⟩ := mapped
      exact List.forall_mem_cons.mpr ⟨here, inductionHypothesis later⟩

/-- The results are related to the entries one by one. -/
theorem mapM_eq_some_of_forall₂
    (each : List.Forall₂ (fun entry result => function entry = some result) list results) :
    list.mapM function = some results := by
  induction each with
  | nil => rfl
  | cons first _ inductionHypothesis => simp [first, inductionHypothesis]

theorem getElem?_of_mapM
    (mapped : list.mapM function = some results)
    {i : Nat}
    {entry : Source}
    (found : list[i]? = some entry) :
    ∃ result, function entry = some result ∧ results[i]? = some result := by
  induction list generalizing results i with
  | nil => simp at found
  | cons first list inductionHypothesis =>
      simp only [List.mapM_cons, Option.bind_eq_bind, Option.bind_eq_some_iff] at mapped
      obtain ⟨head, atHead, tail, atTail, result⟩ := mapped
      cases result
      cases i with
      | zero =>
          cases found
          exact ⟨head, atHead, rfl⟩
      | succ i => exact inductionHypothesis atTail found

/-- As many results as entries. -/
theorem length_of_mapM (mapped : list.mapM function = some results) :
    results.length = list.length := by
  induction list generalizing results with
  | nil =>
      cases mapped
      rfl
  | cons entry list inductionHypothesis =>
      simp only [List.mapM_cons, Option.bind_eq_bind, Option.bind_eq_some_iff] at mapped
      obtain ⟨first, -, rest, atRest, equal⟩ := mapped
      cases equal
      rw [List.length_cons, List.length_cons, inductionHypothesis atRest]

/-- The whole succeeds where every entry does. -/
theorem exists_mapM_eq_some
    (each : ∀ entry ∈ list, ∃ result, function entry = some result) :
    ∃ results, list.mapM function = some results := by
  induction list with
  | nil => exact ⟨[], rfl⟩
  | cons entry list inductionHypothesis =>
      obtain ⟨first, atFirst⟩ := each entry (List.mem_cons_self ..)
      obtain ⟨rest, atRest⟩ := inductionHypothesis
        fun other member => each other (List.mem_cons_of_mem _ member)
      exact ⟨first :: rest, by simp [atFirst, atRest]⟩

/-- Every entry has its result. -/
theorem exists_result_of_mem
    (mapped : list.mapM function = some results)
    {entry : Source}
    (member : entry ∈ list) :
    ∃ result ∈ results, function entry = some result := by
  obtain ⟨i, found⟩ := List.mem_iff_getElem?.mp member
  obtain ⟨result, isResult, atIndex⟩ := getElem?_of_mapM mapped found
  exact ⟨result, List.mem_of_getElem? atIndex, isResult⟩

/-- Every result has its entry. -/
theorem exists_entry_of_mem
    (mapped : list.mapM function = some results)
    {result : Target}
    (member : result ∈ results) :
    ∃ entry ∈ list, function entry = some result := by
  induction list generalizing results with
  | nil =>
      cases mapped
      cases member
  | cons entry list inductionHypothesis =>
      simp only [List.mapM_cons, Option.bind_eq_bind, Option.bind_eq_some_iff] at mapped
      obtain ⟨first, atFirst, rest, atRest, equal⟩ := mapped
      cases equal
      rcases List.mem_cons.mp member with rfl | later
      · exact ⟨entry, List.mem_cons_self .., atFirst⟩
      · obtain ⟨other, inside, isResult⟩ := inductionHypothesis atRest later
        exact ⟨other, List.mem_cons_of_mem _ inside, isResult⟩

end MfQuery
