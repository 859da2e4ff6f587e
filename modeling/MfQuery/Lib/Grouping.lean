import MfQuery.Lib.FirstOccurrence

/-!
# Grouping queries

A grouping query keeps the first row of every key. For each kept row its
features select rows of the table, and the result of the kept row is computed
from the selected rows, or the kept row is rejected. Where a feature selects
only rows of the key it is evaluated for, tables can be cut along their keys.
-/

namespace MfQuery

/-- A grouping query over rows with keys. -/
structure Grouping (Row Key Result : Type) where
  key : Row → Key
  selects : Nat → Row → Row → Bool
  result : Row → (Nat → List Row) → Option Result

namespace Grouping

variable {Row Key Result : Type}

/-- The result of one kept row. -/
def line (grouping : Grouping Row Key Result) (table : List Row) (kept : Row) : Option Result :=
  grouping.result kept fun i => table.filter (grouping.selects i kept)

/-- The result of a kept row depends on the rows selected for it. -/
theorem line_eq_of_filter
    {grouping : Grouping Row Key Result}
    {table part : List Row}
    {kept : Row}
    (same : ∀ i, table.filter (grouping.selects i kept) = part.filter (grouping.selects i kept)) :
    grouping.line table kept = grouping.line part kept := by
  unfold line
  rw [funext same]

/-- Features select rows of the key they are evaluated for. -/
def Local (grouping : Grouping Row Key Result) : Prop :=
  ∀ i kept row, grouping.selects i kept row = true → grouping.key row = grouping.key kept

/-- Nothing depends on which row of a key is kept, nor on the order of the
selected rows. -/
structure Unordered (grouping : Grouping Row Key Result) : Prop where
  selects_eq : ∀ i kept other, grouping.key kept = grouping.key other →
    grouping.selects i kept = grouping.selects i other
  result_eq : ∀ kept other rows others, grouping.key kept = grouping.key other →
    (∀ i, (rows i : List Row).Perm (others i)) →
      grouping.result kept rows = grouping.result other others

/-- Rows selected for a chosen key are rows of chosen keys. -/
theorem Local.filter_chosen
    {grouping : Grouping Row Key Result}
    (isLocal : grouping.Local)
    (chosen : Key → Bool)
    {kept : Row}
    (isChosen : chosen (grouping.key kept) = true)
    (table : List Row)
    (i : Nat) :
    (table.filter fun row => chosen (grouping.key row)).filter (grouping.selects i kept) =
      table.filter (grouping.selects i kept) := by
  rw [List.filter_filter]
  apply List.filter_congr
  intro row _
  cases selected : grouping.selects i kept row with
  | false => rfl
  | true => rw [isLocal i kept row selected, isChosen, Bool.and_true]

/-- Rows of other keys are not selected. -/
theorem Local.filter_eq_nil
    {grouping : Grouping Row Key Result}
    (isLocal : grouping.Local)
    {kept : Row}
    {rows : List Row}
    (others : ∀ row ∈ rows, grouping.key row ≠ grouping.key kept)
    (i : Nat) :
    rows.filter (grouping.selects i kept) = [] := by
  rw [List.filter_eq_nil_iff]
  exact fun row member selected => others row member (isLocal i kept row selected)

section Append

variable {grouping : Grouping Row Key Result} (isLocal : grouping.Local) {left right : List Row}
  (apart : ∀ row ∈ left, ∀ other ∈ right, grouping.key row ≠ grouping.key other) {kept : Row}
include isLocal apart

theorem Local.filter_append_left
    (inLeft : kept ∈ left)
    (i : Nat) :
    (left ++ right).filter (grouping.selects i kept) = left.filter (grouping.selects i kept) := by
  rw [List.filter_append, isLocal.filter_eq_nil
    (fun row inRight => (apart kept inLeft row inRight).symm), List.append_nil]

theorem Local.filter_append_right
    (inRight : kept ∈ right)
    (i : Nat) :
    (left ++ right).filter (grouping.selects i kept) = right.filter (grouping.selects i kept) := by
  rw [List.filter_append, isLocal.filter_eq_nil
    (fun row inLeft => apart row inLeft kept inRight), List.nil_append]

end Append

variable [DecidableEq Key]

/-- The results of the kept rows, in the order in which their keys appear. -/
def answer (grouping : Grouping Row Key Result) (table : List Row) : List Result :=
  (firsts grouping.key table).filterMap (grouping.line table)

/-- Groupings with the same keys and the same results for the kept rows of a
table have the same answer. -/
theorem answer_congr
    {left right : Grouping Row Key Result}
    {table : List Row}
    (keys : left.key = right.key)
    (lines : ∀ kept ∈ firsts right.key table, left.line table kept = right.line table kept) :
    left.answer table = right.answer table := by
  unfold answer
  rw [keys]
  exact List.filterMap_congr lines

theorem firsts_filter
    (key : Row → Key)
    (chosen : Key → Bool)
    (table : List Row) :
    firsts key (table.filter fun row => chosen (key row)) =
      (firsts key table).filter fun row => chosen (key row) := by
  induction table using List.reverseRecOn with
  | nil => rfl
  | append_singleton table row inductionHypothesis =>
      rw [List.filter_append, FirstOccurrence.firsts_concat]
      cases isChosen : chosen (key row) with
      | false =>
          rw [List.filter_cons_of_neg (by simp [isChosen]), List.filter_nil, List.append_nil,
            inductionHypothesis, keepFirst]
          split_ifs
          · rfl
          · rw [List.filter_append, List.filter_cons_of_neg (by simp [isChosen]), List.filter_nil,
              List.append_nil]
      | true =>
          rw [List.filter_cons_of_pos (by simp [isChosen]), List.filter_nil,
            FirstOccurrence.firsts_concat, inductionHypothesis]
          -- a chosen key is seen before exactly when it is among the chosen ones
          have seen : key row ∈ ((firsts key table).filter fun other =>
              chosen (key other)).map key ↔ key row ∈ (firsts key table).map key := by
            simp only [List.mem_map, List.mem_filter]
            constructor
            · rintro ⟨other, ⟨member, -⟩, same⟩
              exact ⟨other, member, same⟩
            · rintro ⟨other, member, same⟩
              exact ⟨other, ⟨member, by rw [same, isChosen]⟩, same⟩
          unfold keepFirst
          rw [if_congr seen rfl rfl]
          split_ifs
          · rfl
          · rw [List.filter_append, List.filter_cons_of_pos (by simp [isChosen]), List.filter_nil]

/-- The answer on the rows of some keys consists of the results of these keys
in the whole table. -/
theorem answer_filter
    {grouping : Grouping Row Key Result}
    (isLocal : grouping.Local)
    (chosen : Key → Bool)
    (table : List Row) :
    grouping.answer (table.filter fun row => chosen (grouping.key row)) =
      ((firsts grouping.key table).filter fun row => chosen (grouping.key row)).filterMap
        (grouping.line table) := by
  unfold answer
  rw [firsts_filter]
  apply List.filterMap_congr
  intro kept member
  exact line_eq_of_filter
    (isLocal.filter_chosen chosen (List.mem_filter.mp member).2 table)

/-- The answer on the rows of some keys is part of the whole answer. -/
theorem answer_filter_sublist
    {grouping : Grouping Row Key Result}
    (isLocal : grouping.Local)
    (chosen : Key → Bool)
    (table : List Row) :
    (grouping.answer (table.filter fun row => chosen (grouping.key row))).Sublist
      (grouping.answer table) := by
  rw [answer_filter isLocal]
  exact List.filter_sublist.filterMap _

/-- A table can be cut into the rows of some keys and the others. -/
theorem answer_partition
    {grouping : Grouping Row Key Result}
    (isLocal : grouping.Local)
    (chosen : Key → Bool)
    (table : List Row) :
    (grouping.answer (table.filter fun row => chosen (grouping.key row)) ++
        grouping.answer (table.filter fun row => !chosen (grouping.key row))).Perm
      (grouping.answer table) := by
  rw [answer_filter isLocal, answer_filter isLocal fun key => !chosen key, ← List.filterMap_append]
  exact (List.filter_append_perm _ _).filterMap _

/-- Collecting the rows of keys that cover a table, each key once, gives the
table. -/
theorem flatMap_filter_perm
    (key : Row → Key)
    {keys : List Key}
    (nodup : keys.Nodup)
    {table : List Row}
    (covered : ∀ row ∈ table, key row ∈ keys) :
    (keys.flatMap fun k => table.filter fun row => decide (key row = k)).Perm table := by
  induction keys generalizing table with
  | nil =>
      rw [List.eq_nil_iff_forall_not_mem.mpr fun row member => List.not_mem_nil (covered row member)]
      exact .nil
  | cons k keys inductionHypothesis =>
      obtain ⟨absent, nodupRest⟩ := List.nodup_cons.mp nodup
      have elsewhere : ∀ other ∈ keys, (table.filter fun row => decide (key row = other)) =
          (table.filter fun row => !decide (key row = k)).filter
            fun row => decide (key row = other) := by
        intro other member
        rw [List.filter_filter]
        apply List.filter_congr
        intro row _
        by_cases same : key row = other
        · have different : key row ≠ k := fun isHead => absent (isHead ▸ same ▸ member)
          simp [same, same ▸ different]
        · simp [same]
      rw [List.flatMap_cons, List.flatMap_congr elsewhere]
      refine .trans (.append_left _ (inductionHypothesis nodupRest fun row member => ?_))
        (List.filter_append_perm _ _)
      obtain ⟨inTable, different⟩ := List.mem_filter.mp member
      refine (List.mem_cons.mp (covered row inTable)).resolve_left ?_
      simpa using different

/-- The rows of the kept elements are the rows of the table. -/
theorem flatMap_firsts_perm
    (key : Row → Key)
    (admits : Row → Bool)
    (table : List Row) :
    ((firsts key table).flatMap fun kept => table.filter fun row =>
      decide (key row = key kept) && admits row).Perm (table.filter admits) := by
  have collected := flatMap_filter_perm key (FirstOccurrence.nodup_map_firsts key table)
    fun row (member : row ∈ table.filter admits) => (FirstOccurrence.mem_map_firsts ..).mpr
      (List.mem_map_of_mem (List.mem_of_mem_filter member))
  rw [List.flatMap_map] at collected
  simpa only [List.filter_filter] using collected

/-- Kept rows of tables without a common key. -/
theorem firsts_append
    {key : Row → Key}
    {left right : List Row}
    (apart : ∀ row ∈ left, ∀ other ∈ right, key row ≠ key other) :
    firsts key (left ++ right) = firsts key left ++ firsts key right := by
  induction right using List.reverseRecOn with
  | nil => rw [List.append_nil, FirstOccurrence.firsts_nil, List.append_nil]
  | append_singleton right last inductionHypothesis =>
      have earlier := inductionHypothesis fun row member other inside =>
        apart row member other (List.mem_append_left _ inside)
      have notLeft : key last ∉ (firsts key left).map key := by
        rw [FirstOccurrence.mem_map_firsts]
        rintro inside
        obtain ⟨row, member, same⟩ := List.mem_map.mp inside
        exact apart row member last (by simp) same
      rw [← List.append_assoc, FirstOccurrence.firsts_concat, FirstOccurrence.firsts_concat,
        earlier]
      have seen : key last ∈ (firsts key left ++ firsts key right).map key ↔
          key last ∈ (firsts key right).map key := by
        rw [List.map_append, List.mem_append, or_iff_right notLeft]
      unfold keepFirst
      rw [if_congr seen rfl rfl]
      split_ifs
      · rfl
      · rw [List.append_assoc]

/-- Tables without a common key are answered one after the other. -/
theorem answer_append
    {grouping : Grouping Row Key Result}
    (isLocal : grouping.Local)
    {left right : List Row}
    (apart : ∀ row ∈ left, ∀ other ∈ right, grouping.key row ≠ grouping.key other) :
    grouping.answer (left ++ right) = grouping.answer left ++ grouping.answer right := by
  unfold answer
  rw [firsts_append apart, List.filterMap_append]
  congr 1
  · apply List.filterMap_congr
    intro kept member
    exact line_eq_of_filter (isLocal.filter_append_left apart
      ((FirstOccurrence.firsts_sublist grouping.key left).subset member))
  · apply List.filterMap_congr
    intro kept member
    exact line_eq_of_filter (isLocal.filter_append_right apart
      ((FirstOccurrence.firsts_sublist grouping.key right).subset member))

/-- Changing rows without changing their keys changes the kept rows. -/
theorem firsts_map
    {key : Row → Key}
    {change : Row → Row}
    {table : List Row}
    (keys : ∀ row ∈ table, key (change row) = key row) :
    firsts key (table.map change) = (firsts key table).map change := by
  induction table using List.reverseRecOn with
  | nil => rfl
  | append_singleton table last inductionHypothesis =>
      have earlier := inductionHypothesis fun row member =>
        keys row (List.mem_append_left _ member)
      have unchanged : ((firsts key table).map change).map key = (firsts key table).map key := by
        rw [List.map_map]
        apply List.map_congr_left
        intro row member
        exact keys row (List.mem_append_left _
          ((FirstOccurrence.firsts_sublist key table).subset member))
      rw [List.map_append, List.map_singleton, FirstOccurrence.firsts_concat,
        FirstOccurrence.firsts_concat, earlier, keepFirst, keepFirst, unchanged,
        keys last (by simp)]
      split_ifs
      · rfl
      · rw [List.map_append, List.map_singleton]

/-- Changing rows in a way the query does not notice leaves the answer. -/
theorem answer_map
    {grouping : Grouping Row Key Result}
    {change : Row → Row}
    {table : List Row}
    (keys : ∀ row ∈ table, grouping.key (change row) = grouping.key row)
    (selects : ∀ i, ∀ kept ∈ table, ∀ row ∈ table,
      grouping.selects i (change kept) (change row) = grouping.selects i kept row)
    (results : ∀ kept ∈ table, ∀ rows : Nat → List Row, (∀ i, ∀ row ∈ rows i, row ∈ table) →
      grouping.result (change kept) (fun i => (rows i).map change) = grouping.result kept rows) :
    grouping.answer (table.map change) = grouping.answer table := by
  unfold answer
  rw [firsts_map keys, List.filterMap_map]
  apply List.filterMap_congr
  intro kept member
  have inTable := (FirstOccurrence.firsts_sublist grouping.key table).subset member
  have selected : ∀ i, (table.map change).filter (grouping.selects i (change kept)) =
      (table.filter (grouping.selects i kept)).map change := by
    intro i
    rw [List.filter_map]
    congr 1
    apply List.filter_congr
    intro row inside
    exact selects i kept inTable row inside
  rw [Function.comp_apply, line, funext selected]
  exact results kept inTable _ fun i row inside => List.mem_of_mem_filter inside

/-- Reordering the table reorders the answer. -/
theorem answer_perm
    {grouping : Grouping Row Key Result}
    (unordered : grouping.Unordered)
    {left right : List Row}
    (permuted : left.Perm right) :
    (grouping.answer left).Perm (grouping.answer right) := by
  apply FirstOccurrence.filterMap_firsts_perm _ permuted
  intro kept _ other _ sameKey
  apply unordered.result_eq kept other _ _ sameKey
  intro i
  rw [unordered.selects_eq i kept other sameKey]
  exact permuted.filter _

end Grouping
end MfQuery
