import MfQuery.FrontEnd.Explode

/-!
# Splitting joined fields

Fields joined with the separator in use are split into the same fields again,
unless the separator is a comma and a space and the last field is a single
character: the rest of the text is then shorter than the separator, and the
loop runs out of the string.
-/

namespace MfQuery

open Text

/-- Fields that can be joined with a separator: nonempty, without the separator,
and not blank in the last place. -/
structure Joinable (quan : Text) (fields : List Text) : Prop where
  nonempty : ∀ field ∈ fields, field ≠ []
  free : ∀ field ∈ fields, ¬quan <:+: field
  visible : ∀ last ∈ fields.getLast?, ∃ character ∈ last, isBlank character = false

theorem Joinable.tail
    {quan field next : Text}
    {rest : List Text}
    (joinable : Joinable quan (field :: next :: rest)) :
    Joinable quan (next :: rest) where
  nonempty := fun other member => joinable.nonempty other (List.mem_cons_of_mem _ member)
  free := fun other member => joinable.free other (List.mem_cons_of_mem _ member)
  visible := by
    intro last member
    exact joinable.visible last (by simpa using member)

/-! ## Lines -/

theorem intercalate_singleton_eq_joinWith
    (quan : Char)
    (fields : List Text) :
    List.intercalate [quan] fields = joinWith quan fields := by
  induction fields with
  | nil => rfl
  | cons field fields inductionHypothesis =>
      cases fields with
      | nil => rw [List.intercalate_singleton, joinWith]
      | cons next rest =>
          rw [List.intercalate_cons_cons, inductionHypothesis, joinWith, List.append_assoc,
            List.singleton_append]

theorem explode_lines
    {quan : Char}
    {fields : List Text}
    (present : fields ≠ [])
    (joinable : Joinable [quan] fields) :
    explode [quan] (List.intercalate [quan] fields) = .ok (some fields) := by
  rw [intercalate_singleton_eq_joinWith]
  apply explode_join quan fields present
  refine ⟨joinable.nonempty, ?_, joinable.visible⟩
  intro field member inside
  obtain ⟨before, after, rfl⟩ := List.append_of_mem inside
  exact joinable.free _ member ⟨before, after, by simp⟩

/-! ## Comma-separated fields -/

section Comma

variable {field rest : Text}

/-- Inside a field no separator begins, even where the next separator follows
directly. -/
theorem comma_not_begins
    (free : ¬comma <:+: field)
    {i : Nat}
    (inside : i < field.length)
    (rest : Text) :
    ¬comma <+: (field ++ comma ++ rest).drop i := by
  intro begins
  rw [List.append_assoc, List.drop_append_of_le_length inside.le,
    List.drop_eq_getElem_cons inside, List.cons_append] at begins
  obtain ⟨isComma, later⟩ := List.cons_prefix_cons.mp begins
  by_cases more : i + 1 < field.length
  · rw [List.drop_eq_getElem_cons more, List.cons_append] at later
    obtain ⟨isSpace, -⟩ := List.cons_prefix_cons.mp later
    refine free ⟨field.take i, field.drop (i + 2), ?_⟩
    have shape : field.drop i = ',' :: ' ' :: field.drop (i + 2) := by
      rw [List.drop_eq_getElem_cons inside, List.drop_eq_getElem_cons more, ← isComma, ← isSpace]
    calc field.take i ++ comma ++ field.drop (i + 2)
        = field.take i ++ (',' :: ' ' :: field.drop (i + 2)) := by
          rw [List.append_assoc]
          rfl
      _ = field := by rw [← shape, List.take_append_drop]
  · rw [List.drop_eq_nil_of_le (by omega), List.nil_append] at later
    exact absurd (List.cons_prefix_cons.mp later).1 (by decide)

/-- Started inside a field, the loop cuts behind it. -/
theorem explodeLoop_field
    (free : ¬comma <:+: field)
    (more : rest ≠ [])
    (fuel i : Nat)
    (inside : i ≤ field.length)
    (enough : field.length < fuel + i) :
    explodeLoop comma fuel (field ++ comma ++ rest) i =
      (field :: ·) <$> explodeLoop comma (fuel + i - field.length - 1) rest 1 := by
  have two : comma.length = 2 := rfl
  have positive := List.length_pos_iff.mpr more
  have length : (field ++ comma ++ rest).length = field.length + 2 + rest.length := by
    rw [List.length_append, List.length_append, two]
  induction fuel generalizing i with
  | zero => omega
  | succ fuel inductionHypothesis =>
      rw [explodeLoop_succ comma fuel _ i (by omega), if_pos (by omega)]
      by_cases atEnd : i = field.length
      · subst i
        have begins : comma <+: (field ++ comma ++ rest).drop field.length := by
          rw [List.append_assoc, List.drop_left]
          exact List.prefix_append comma rest
        have cut : (field ++ comma ++ rest).take field.length = field := by
          rw [List.append_assoc, List.take_left]
        have left : (field ++ comma ++ rest).drop (field.length + comma.length) = rest := by
          rw [← List.length_append, List.drop_left]
        have fuelLeft : fuel + 1 + field.length - field.length - 1 = fuel := by omega
        rw [if_pos begins, cut, left, fuelLeft]
      · have within : i < field.length := by omega
        have fuelLeft : fuel + (i + 1) - field.length - 1 = fuel + 1 + i - field.length - 1 := by
          omega
        rw [if_neg (comma_not_begins free within rest),
          inductionHypothesis (i + 1) (by omega) (by omega), fuelLeft]

/-- On the last field the loop finds nothing. -/
theorem explodeLoop_lastField
    (free : ¬comma <:+: field)
    (long : 2 ≤ field.length)
    (visible : ∃ character ∈ field, isBlank character = false)
    (fuel i : Nat)
    (inside : i ≤ field.length)
    (enough : field.length < fuel + i) :
    explodeLoop comma fuel field i = .ok [field] := by
  have two : comma.length = 2 := rfl
  obtain ⟨character, member, notBlank⟩ := visible
  have shown := List.length_pos_iff.mpr (trim_ne_nil_of_mem member notBlank)
  induction fuel generalizing i with
  | zero => omega
  | succ fuel inductionHypothesis =>
      rw [explodeLoop_succ comma fuel field i (by omega)]
      by_cases room : i + comma.length < field.length
      · have noMatch : ¬comma <+: field.drop i := by
          intro begins
          exact free (begins.isInfix.trans (List.drop_suffix i field).isInfix)
        rw [if_pos room, if_neg noMatch, inductionHypothesis (i + 1) (by omega) (by omega)]
      · rw [if_neg room, if_pos shown]

/-- The loop returns the fields, unless the last one is a single character. -/
theorem explodeLoop_fields
    (first : Text)
    (rest : List Text)
    (joinable : Joinable comma (first :: rest))
    (fuel i : Nat)
    (inside : i ≤ first.length)
    (enough : (List.intercalate comma (first :: rest)).length < fuel + i) :
    explodeLoop comma fuel (List.intercalate comma (first :: rest)) i =
      if ((first :: rest).getLast (List.cons_ne_nil _ _)).length = 1 then .error .thrown
      else .ok (first :: rest) := by
  have two : comma.length = 2 := rfl
  induction rest generalizing first fuel i with
  | nil =>
      have positive := List.length_pos_iff.mpr (joinable.nonempty first (by simp))
      rw [List.intercalate_singleton] at enough ⊢
      rw [List.getLast_singleton]
      by_cases short : first.length = 1
      · rw [if_pos short, explodeLoop_throws fuel (by omega) (by omega)]
      · rw [if_neg short, explodeLoop_lastField (joinable.free first (by simp)) (by omega)
          (joinable.visible first (by simp)) fuel i inside enough]
  | cons next rest inductionHypothesis =>
      have nextPositive := List.length_pos_iff.mpr (joinable.nonempty next (by simp))
      have more : List.intercalate comma (next :: rest) ≠ [] := by
        cases rest with
        | nil =>
            rw [List.intercalate_singleton]
            exact List.length_pos_iff.mp nextPositive
        | cons third rest =>
            rw [List.intercalate_cons_cons]
            simp [comma]
      rw [List.intercalate_cons_cons] at enough ⊢
      rw [List.length_append, List.length_append] at enough
      rw [explodeLoop_field (joinable.free first (by simp)) more fuel i inside (by omega),
        inductionHypothesis next joinable.tail _ 1 nextPositive (by omega),
        List.getLast_cons (List.cons_ne_nil next rest)]
      split_ifs
      · rfl
      · rfl

end Comma

/-- `explode` inverts joining with the separators in use exactly when lines are
joined, or the last field has at least two characters. -/
theorem explode_inverts_join_iff
    (quan : Text)
    (fields : List Text)
    (inUse : quan = comma ∨ quan = ['\n'])
    (present : fields ≠ [])
    (joinable : Joinable quan fields) :
    explode quan (List.intercalate quan fields) = .ok (some fields) ↔
      quan = ['\n'] ∨ 2 ≤ (fields.getLast present).length := by
  rcases inUse with rfl | rfl
  · have notNewline : comma ≠ ['\n'] := by decide
    have lastPositive := List.length_pos_iff.mpr
      (joinable.nonempty (fields.getLast present) (List.getLast_mem present))
    obtain ⟨first, rest, rfl⟩ := List.exists_cons_of_ne_nil present
    have nonempty : (List.intercalate comma (first :: rest)).length ≠ 0 := by
      have firstPositive := List.length_pos_iff.mpr (joinable.nonempty first (by simp))
      cases rest with
      | nil =>
          rw [List.intercalate_singleton]
          omega
      | cons next rest =>
          rw [List.intercalate_cons_cons, List.length_append, List.length_append]
          omega
    rw [explode, if_neg (by simpa [comma] using nonempty),
      explodeLoop_fields first rest joinable _ 0 (Nat.zero_le _) (by omega)]
    split_ifs with short
    · refine iff_of_false (fun impossible => by cases impossible) ?_
      rintro (impossible | long)
      · exact notNewline impossible
      · omega
    · exact iff_of_true rfl (.inr (by omega))
  · exact iff_of_true (explode_lines present joinable) (.inl rfl)

/-- A list of two columns is split into its columns. -/
theorem explode_inverts_join_columns :
    explode comma (List.intercalate comma ["cust".toList, "quant".toList]) =
      .ok (some ["cust".toList, "quant".toList]) :=
  (explode_inverts_join_iff comma ["cust".toList, "quant".toList] (.inl rfl) (by decide)
    ⟨by decide, by decide, by
      rintro last ⟨⟩
      exact ⟨'q', by decide, by decide⟩⟩).mpr (.inr (by decide))

/-- A last column of one letter makes `explode` throw. -/
theorem one_letter_field_throws :
    Joinable comma ["cust".toList, "q".toList] ∧
      explode comma (List.intercalate comma ["cust".toList, "q".toList]) = .error .thrown :=
  ⟨⟨by decide, by decide, by
    rintro last ⟨⟩
    exact ⟨'q', by decide, by decide⟩⟩, by decide⟩

end MfQuery
