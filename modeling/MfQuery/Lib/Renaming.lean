import Mathlib.Tactic

/-!
# Texts that differ in marked names

Two texts are renamings of each other when they consist of the same plain
parts and of the same marked names, spelled one way in the first text and
another way in the second. Comparing two generated texts part by part decides
whether they are: every pair of parts is either renamed, or the second part is
strictly shorter.
-/

namespace MfQuery

variable {Letter Name : Type}

/-- How marked names are spelled before and after, and which parts are plain. -/
structure Spelling (Letter Name : Type) where
  before : Name → List Letter
  after : Name → List Letter
  plain : List Letter → Prop
  length_eq : ∀ name, (after name).length = (before name).length

namespace Spelling

variable (spelling : Spelling Letter Name)

/-- The second text is the first one with its marked names respelled. -/
inductive Renamed : List Letter → List Letter → Prop where
  | nil : Renamed [] []
  | text
      {part first second : List Letter}
      (plain : spelling.plain part)
      (rest : Renamed first second) :
      Renamed (part ++ first) (part ++ second)
  | name
      (marked : Name)
      {first second : List Letter}
      (rest : Renamed first second) :
      Renamed (spelling.before marked ++ first) (spelling.after marked ++ second)

/-- The second text is a renaming when the condition holds, and shorter
otherwise. -/
def Compared (same : Prop) (first second : List Letter) : Prop :=
  (same → spelling.Renamed first second) ∧ (¬same → second.length < first.length)

end Spelling

namespace Spelling.Renamed

variable {spelling : Spelling Letter Name} {first second third fourth : List Letter}

theorem length_eq (renamed : spelling.Renamed first second) : second.length = first.length := by
  induction renamed with
  | nil => rfl
  | text plain rest inductionHypothesis =>
      rw [List.length_append, List.length_append, inductionHypothesis]
  | name marked rest inductionHypothesis =>
      rw [List.length_append, List.length_append, inductionHypothesis, spelling.length_eq]

theorem append
    (left : spelling.Renamed first second)
    (right : spelling.Renamed third fourth) :
    spelling.Renamed (first ++ third) (second ++ fourth) := by
  induction left with
  | nil => exact right
  | text plain rest inductionHypothesis =>
      rw [List.append_assoc, List.append_assoc]
      exact .text plain inductionHypothesis
  | name marked rest inductionHypothesis =>
      rw [List.append_assoc, List.append_assoc]
      exact .name marked inductionHypothesis

theorem of_plain
    (plain : spelling.plain first) :
    spelling.Renamed first first := by
  have whole := Renamed.text plain .nil
  rwa [List.append_nil] at whole

theorem of_name (marked : Name) :
    spelling.Renamed (spelling.before marked) (spelling.after marked) := by
  have whole : spelling.Renamed (spelling.before marked ++ []) (spelling.after marked ++ []) :=
    .name marked .nil
  rwa [List.append_nil, List.append_nil] at whole

theorem flatMap
    {Item : Type}
    {items : List Item}
    {before after : Item → List Letter}
    (each : ∀ item ∈ items, spelling.Renamed (before item) (after item)) :
    spelling.Renamed (items.flatMap before) (items.flatMap after) := by
  induction items with
  | nil => exact .nil
  | cons item items inductionHypothesis =>
      have later := inductionHypothesis fun other member =>
        each other (List.mem_cons_of_mem _ member)
      rw [List.flatMap_cons, List.flatMap_cons]
      exact (each item (List.mem_cons_self ..)).append later

end Spelling.Renamed

namespace Spelling.Compared

variable {spelling : Spelling Letter Name} {same other : Prop}
  {first second third fourth : List Letter}

theorem of_renamed
    (renamed : spelling.Renamed first second) :
    spelling.Compared True first second :=
  ⟨fun _ => renamed, fun impossible => absurd trivial impossible⟩

theorem length_le (compared : spelling.Compared same first second) :
    second.length ≤ first.length := by
  by_cases holds : same
  · exact (compared.1 holds).length_eq.le
  · exact (compared.2 holds).le

/-- The condition decides whether the texts are renamings. -/
theorem renamed_iff (compared : spelling.Compared same first second) :
    spelling.Renamed first second ↔ same := by
  constructor
  · intro renamed
    by_contra differs
    have shorter := compared.2 differs
    rw [renamed.length_eq] at shorter
    exact Nat.lt_irrefl _ shorter
  · exact compared.1

theorem append
    (left : spelling.Compared same first second)
    (right : spelling.Compared other third fourth) :
    spelling.Compared (same ∧ other) (first ++ third) (second ++ fourth) := by
  constructor
  · rintro ⟨leftSame, rightSame⟩
    exact (left.1 leftSame).append (right.1 rightSame)
  · intro differs
    rw [List.length_append, List.length_append]
    have leftLength := left.length_le
    have rightLength := right.length_le
    by_cases leftSame : same
    · have rightShorter := right.2 fun rightSame => differs ⟨leftSame, rightSame⟩
      omega
    · have leftShorter := left.2 leftSame
      omega

theorem congr
    (compared : spelling.Compared same first second)
    (equivalent : same ↔ other) :
    spelling.Compared other first second := by
  rwa [← propext equivalent]

/-- A part in front of a renamed part. -/
theorem append_renamed
    (left : spelling.Compared same first second)
    (right : spelling.Renamed third fourth) :
    spelling.Compared same (first ++ third) (second ++ fourth) := by
  apply (left.append (of_renamed right)).congr
  rw [and_true]

/-- A part behind a renamed part. -/
theorem renamed_append
    (left : spelling.Renamed first second)
    (right : spelling.Compared same third fourth) :
    spelling.Compared same (first ++ third) (second ++ fourth) := by
  apply ((of_renamed left).append right).congr
  rw [true_and]

/-- A part between renamed parts. -/
theorem between
    {before after : List Letter}
    (left : spelling.Renamed first second)
    (middle : spelling.Compared same third fourth)
    (right : spelling.Renamed before after) :
    spelling.Compared same (first ++ third ++ before) (second ++ fourth ++ after) :=
  (renamed_append left middle).append_renamed right

/-- Texts put together from the parts of two lists. -/
theorem flatMap
    {Item : Type}
    {items : List Item}
    {condition : Item → Prop}
    {before after : Item → List Letter}
    (each : ∀ item ∈ items, spelling.Compared (condition item) (before item) (after item)) :
    spelling.Compared (∀ item ∈ items, condition item) (items.flatMap before)
      (items.flatMap after) := by
  induction items with
  | nil => exact (of_renamed .nil).congr (by simp)
  | cons item items inductionHypothesis =>
      have later := inductionHypothesis fun other member =>
        each other (List.mem_cons_of_mem _ member)
      have both := (each item (List.mem_cons_self ..)).append later
      rw [List.flatMap_cons, List.flatMap_cons]
      apply both.congr
      rw [List.forall_mem_cons]

end Spelling.Compared

end MfQuery
