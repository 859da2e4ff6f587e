import Mathlib.Data.List.Infix
import Mathlib.Tactic

/-!
# Lines

A file is a list of lines, each ended by a separator. A pattern without the
separator cannot cross the end of a line, so its first occurrence is found by
going through the lines one by one.
-/

namespace MfQuery
namespace Lines

variable {α : Type}

/-- Every line followed by the separator. -/
def unlines (separator : α) (lines : List (List α)) : List α :=
  lines.flatMap fun line => line ++ [separator]

section

variable (separator : α)

@[simp] theorem unlines_nil : unlines separator [] = [] := rfl

@[simp] theorem unlines_cons
    (line : List α)
    (lines : List (List α)) :
    unlines separator (line :: lines) = line ++ separator :: unlines separator lines := by
  simp [unlines]

@[simp] theorem unlines_append
    (lines others : List (List α)) :
    unlines separator (lines ++ others) =
      unlines separator lines ++ unlines separator others := by
  simp [unlines]

end

/-- A prefix without the separator ends before it. -/
theorem prefix_of_prefix_line
    {separator : α}
    {pattern line rest : List α}
    (free : separator ∉ pattern)
    (begins : pattern <+: line ++ separator :: rest) :
    pattern <+: line := by
  rcases List.prefix_or_prefix_of_prefix begins (List.prefix_append line _) with inside | beyond
  · exact inside
  · obtain ⟨more, rfl⟩ := beyond
    rw [List.prefix_append_right_inj] at begins
    cases more with
    | nil => simp
    | cons next more =>
        obtain ⟨rfl, -⟩ := List.cons_prefix_cons.mp begins
        exact absurd (by simp) free

/-- A pattern without the separator occurs on one of its sides. -/
theorem infix_line_iff
    {separator : α}
    {pattern : List α}
    (free : separator ∉ pattern)
    (line rest : List α) :
    pattern <:+: line ++ separator :: rest ↔ pattern <:+: line ∨ pattern <:+: rest := by
  constructor
  · intro occurs
    induction line with
    | nil =>
        rcases List.infix_cons_iff.mp occurs with begins | later
        · rw [← List.nil_append (separator :: rest)] at begins
          exact Or.inl (prefix_of_prefix_line free begins).isInfix
        · exact Or.inr later
    | cons current line inductionHypothesis =>
        rw [List.cons_append] at occurs
        rcases List.infix_cons_iff.mp occurs with begins | later
        · rw [← List.cons_append] at begins
          exact Or.inl (prefix_of_prefix_line free begins).isInfix
        · rcases inductionHypothesis later with inLine | inRest
          · exact Or.inl (List.infix_cons inLine)
          · exact Or.inr inRest
  · rintro (inLine | inRest)
    · exact inLine.trans (List.prefix_append line _).isInfix
    · exact inRest.trans ((List.suffix_cons separator rest).trans
        (List.suffix_append line _)).isInfix

variable [DecidableEq α]

/-- Position of the first occurrence of a pattern. -/
def firstAt (pattern : List α) : List α → Option Nat
  | [] => none
  | current :: rest =>
      if pattern.isPrefixOf (current :: rest) then some 0
      else (firstAt pattern rest).map (· + 1)

theorem firstAt_self
    {pattern : List α}
    (nonempty : pattern ≠ [])
    (rest : List α) :
    firstAt pattern (pattern ++ rest) = some 0 := by
  obtain ⟨first, tail, rfl⟩ := List.exists_cons_of_ne_nil nonempty
  have begins : (first :: tail).isPrefixOf (first :: (tail ++ rest)) = true :=
    List.isPrefixOf_iff_prefix.mpr ⟨rest, rfl⟩
  rw [List.cons_append, firstAt, if_pos begins]

/-- A line without the pattern is passed over. -/
theorem firstAt_line
    {separator : α}
    {pattern line : List α}
    (nonempty : pattern ≠ [])
    (free : separator ∉ pattern)
    (absent : ¬pattern <:+: line)
    (rest : List α) :
    firstAt pattern (line ++ separator :: rest) =
      (firstAt pattern rest).map (· + (line.length + 1)) := by
  induction line with
  | nil =>
      have noPrefix : ¬pattern.isPrefixOf (separator :: rest) = true := by
        intro begins
        rw [List.isPrefixOf_iff_prefix, ← List.nil_append (separator :: rest)] at begins
        exact nonempty (List.prefix_nil.mp (prefix_of_prefix_line free begins))
      rw [List.nil_append, firstAt, if_neg noPrefix]
      rfl
  | cons current line inductionHypothesis =>
      have noPrefix : ¬pattern.isPrefixOf (current :: (line ++ separator :: rest)) = true := by
        intro begins
        rw [List.isPrefixOf_iff_prefix, ← List.cons_append] at begins
        exact absent (prefix_of_prefix_line free begins).isInfix
      have later : ¬pattern <:+: line := fun occurs => absent (List.infix_cons occurs)
      rw [List.cons_append, firstAt, if_neg noPrefix, inductionHypothesis later, Option.map_map]
      congr 1

/-- Behind lines without the pattern, the first occurrence is the one in front
of the rest. -/
theorem firstAt_unlines
    {separator : α}
    {pattern : List α}
    {lines : List (List α)}
    (nonempty : pattern ≠ [])
    (free : separator ∉ pattern)
    (absent : ∀ line ∈ lines, ¬pattern <:+: line)
    (rest : List α) :
    firstAt pattern (unlines separator lines ++ (pattern ++ rest)) =
      some (unlines separator lines).length := by
  induction lines with
  | nil => simpa using firstAt_self nonempty rest
  | cons line lines inductionHypothesis =>
      have later := inductionHypothesis fun other member =>
        absent other (List.mem_cons_of_mem _ member)
      rw [unlines_cons, List.append_assoc, List.cons_append,
        firstAt_line nonempty free (absent line (by simp)), later, Option.map_some]
      simp only [List.length_append, List.length_cons, Option.some.injEq]
      omega

end Lines
end MfQuery
