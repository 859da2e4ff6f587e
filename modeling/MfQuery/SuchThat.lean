import Mathlib.Data.Bool.AllAny
import MfQuery.Condition
import MfQuery.Lib.Partial

/-!
# The format of such-that lines

A such-that line alternates atoms and connectives, with single spaces between
them. The constructor of `Conditions` takes such a line apart again, whatever
words the connectives are and whatever the values contain except spaces.
-/

namespace MfQuery

open Text

/-! ## Alternating texts -/

/-- A text, and more texts each behind another one. -/
def alternating (first : Text) (rest : List (Text × Text)) : List Text :=
  first :: rest.flatMap fun entry => [entry.1, entry.2]

section Alternating

variable {first : Text} {rest : List (Text × Text)}

theorem evens_alternating (first : Text) (rest : List (Text × Text)) :
    evens (alternating first rest) = first :: rest.map Prod.snd := by
  induction rest generalizing first with
  | nil => rfl
  | cons entry rest inductionHypothesis =>
      have later := inductionHypothesis entry.2
      simp only [alternating, List.flatMap_cons, List.cons_append, List.nil_append, evens,
        List.map_cons] at later ⊢
      rw [later]

theorem odds_alternating (first : Text) (rest : List (Text × Text)) :
    odds (alternating first rest) = rest.map Prod.fst := by
  induction rest generalizing first with
  | nil => rfl
  | cons entry rest inductionHypothesis =>
      have later := inductionHypothesis entry.2
      simp only [alternating, List.flatMap_cons, List.cons_append, List.nil_append, odds,
        List.map_cons] at later ⊢
      rw [later]

/-- The last text stands at an even position. -/
theorem getLast?_alternating (first : Text) (rest : List (Text × Text)) :
    (alternating first rest).getLast? = (first :: rest.map Prod.snd).getLast? := by
  induction rest generalizing first with
  | nil => rfl
  | cons entry rest inductionHypothesis =>
      have later := inductionHypothesis entry.2
      simp only [alternating, List.flatMap_cons, List.cons_append, List.nil_append,
        List.map_cons, List.getLast?_cons_cons] at later ⊢
      exact later

theorem mem_alternating
    {piece : Text}
    (member : piece ∈ alternating first rest) :
    piece ∈ first :: rest.map Prod.snd ∨ piece ∈ rest.map Prod.fst := by
  rcases List.mem_cons.mp member with rfl | later
  · exact .inl (List.mem_cons_self ..)
  · obtain ⟨entry, inside, isPart⟩ := List.mem_flatMap.mp later
    rcases List.mem_cons.mp isPart with rfl | last
    · exact .inr (List.mem_map_of_mem inside)
    · rw [List.mem_singleton.mp last]
      exact .inl (List.mem_cons_of_mem _ (List.mem_map_of_mem inside))

/-- Spaceless texts that alternate, the ones at even positions visible, are the
fields of their line. -/
theorem fields_alternating
    (connectives : ∀ word ∈ rest.map Prod.fst, word ≠ [] ∧ ' ' ∉ word)
    (spaceless : ∀ atom ∈ first :: rest.map Prod.snd, ' ' ∉ atom)
    (visible : ∀ atom ∈ first :: rest.map Prod.snd,
      ∃ character ∈ atom, isBlank character = false) :
    Fields ' ' (alternating first rest) where
  nonempty := by
    intro piece member
    rcases mem_alternating member with isAtom | isWord
    · obtain ⟨character, inside, -⟩ := visible piece isAtom
      exact List.ne_nil_of_mem inside
    · exact (connectives piece isWord).1
  free := by
    intro piece member
    rcases mem_alternating member with isAtom | isWord
    · exact spaceless piece isAtom
    · exact (connectives piece isWord).2
  visible := by
    intro last isLast
    rw [getLast?_alternating] at isLast
    exact visible last (List.mem_of_getLast? isLast)

/-- The constructor takes a line apart into its conditions and connectives. -/
theorem Conditions.ofText_alternating
    {conditions : List Condition}
    (connectives : ∀ word ∈ rest.map Prod.fst, word ≠ [] ∧ ' ' ∉ word)
    (spaceless : ∀ atom ∈ first :: rest.map Prod.snd, ' ' ∉ atom)
    (visible : ∀ atom ∈ first :: rest.map Prod.snd,
      ∃ character ∈ atom, isBlank character = false)
    (read : (first :: rest.map Prod.snd).mapM Condition.ofText = some conditions) :
    Conditions.ofText (joinWith ' ' (alternating first rest)) =
      some ⟨conditions, rest.map Prod.fst⟩ := by
  cases rest with
  | nil =>
      have free := spaceless first (List.mem_cons_self ..)
      have single : [first].mapM Condition.ofText = some conditions := read
      simp only [List.mapM_cons, List.mapM_nil, Option.pure_def, Option.bind_eq_bind,
        Option.bind_some, Option.bind_eq_some_iff, Option.some.injEq] at single
      obtain ⟨condition, here, rfl⟩ := single
      simp [Conditions.ofText, alternating, joinWith, free, here]
  | cons entry rest =>
      have space : ' ' ∈ joinWith ' ' (alternating first (entry :: rest)) := by
        simp [alternating, joinWith]
      have exploded := cExplode_join ' ' _ (by simp [alternating])
        (fields_alternating connectives spaceless visible)
      rw [Conditions.ofText, if_neg (not_not.mpr space)]
      simp only [exploded, Option.bind_eq_bind, Option.bind_some, evens_alternating, read,
        odds_alternating]
      rfl

end Alternating

/-! ## Lines in the documented format -/

instance (operator : CmpOp) (value : Text) : Decidable (operator.Separates value) :=
  inferInstanceAs (Decidable (operator.text ++ value.take 1 ∉ twoCharacterOps))

/-- An atom in the documented format. -/
structure SuchThatAtom where
  group : Nat
  column : Text
  operator : CmpOp
  value : Text
  group_lt : group < 2 ^ 31
  column_ne_nil : column ≠ []
  column_free : ∀ character ∈ column,
    character ≠ '.' ∧ character ≠ ' ' ∧ isOpStart character = false
  value_ne_nil : value ≠ []
  value_spaceless : ' ' ∉ value
  separates : operator.Separates value

namespace SuchThatAtom

/-- The atom as written. -/
def text (atom : SuchThatAtom) : Text :=
  atomText atom.group atom.column atom.operator atom.value

/-- The condition it stands for: `<>` is kept as `!=`, single quotes as double
ones. -/
def condition (atom : SuchThatAtom) : Condition :=
  ⟨atom.group, atom.column, atom.operator.exp, doubleQuotes atom.value⟩

theorem ofText_text (atom : SuchThatAtom) :
    Condition.ofText atom.text = some atom.condition :=
  Condition.ofText_atomText atom.group_lt
    (fun character member => (atom.column_free character member).2.2) atom.separates

theorem dot_mem_text (atom : SuchThatAtom) : '.' ∈ atom.text := by
  simp [text, atomText]

theorem space_notMem_text (atom : SuchThatAtom) : ' ' ∉ atom.text := by
  have inGroup : ' ' ∉ numeral atom.group := by
    intro member
    exact absurd (isDigit_of_mem_numeral member) (by decide)
  have inColumn : ' ' ∉ atom.column :=
    fun member => (atom.column_free ' ' member).2.1 rfl
  have inOperator : ' ' ∉ atom.operator.text := by
    cases atom.operator <;> decide
  simp only [text, atomText, List.mem_append, List.mem_cons, not_or]
  exact ⟨inGroup, by decide, ⟨inColumn, inOperator⟩, atom.value_spaceless⟩

end SuchThatAtom

/-- A word between two atoms. -/
structure SuchThatWord where
  text : Text
  ne_nil : text ≠ []
  spaceless : ' ' ∉ text

/-- A such-that line: its first atom, and the others each behind its word. -/
structure SuchThatLine where
  first : SuchThatAtom
  rest : List (SuchThatWord × SuchThatAtom)

namespace SuchThatLine

/-- The atoms of a line, in their order. -/
def atoms (line : SuchThatLine) : List SuchThatAtom :=
  line.first :: line.rest.map Prod.snd

/-- The words of a line, in their order. -/
def words (line : SuchThatLine) : List Text := line.rest.map fun entry => entry.1.text

/-- Atoms and words as written, one after the other. -/
def pieces (line : SuchThatLine) : List (Text × Text) :=
  line.rest.map fun entry => (entry.1.text, entry.2.text)

/-- The line as written. -/
def text (line : SuchThatLine) : Text :=
  joinWith ' ' (alternating line.first.text line.pieces)

theorem map_fst_pieces (line : SuchThatLine) : line.pieces.map Prod.fst = line.words := by
  rw [pieces, List.map_map]
  rfl

theorem atoms_pieces (line : SuchThatLine) :
    line.first.text :: line.pieces.map Prod.snd = line.atoms.map SuchThatAtom.text := by
  rw [pieces, atoms, List.map_cons, List.map_map, List.map_map]
  rfl

/-- The constructor of `Conditions` inverts the documented format: one
condition for every atom and one connective for every word, in the written
order. -/
theorem line_recovered (line : SuchThatLine) :
    Conditions.ofText line.text = some ⟨line.atoms.map SuchThatAtom.condition, line.words⟩ := by
  have connectives : ∀ word ∈ line.pieces.map Prod.fst, word ≠ [] ∧ ' ' ∉ word := by
    rw [map_fst_pieces]
    intro word member
    obtain ⟨entry, -, rfl⟩ := List.mem_map.mp member
    exact ⟨entry.1.ne_nil, entry.1.spaceless⟩
  have read : (line.first.text :: line.pieces.map Prod.snd).mapM Condition.ofText =
      some (line.atoms.map SuchThatAtom.condition) := by
    rw [atoms_pieces, List.mapM_map]
    exact mapM_eq_some_map fun atom _ => atom.ofText_text
  rw [text, Conditions.ofText_alternating connectives _ _ read, map_fst_pieces]
  · rw [atoms_pieces]
    intro piece member
    obtain ⟨atom, -, rfl⟩ := List.mem_map.mp member
    exact atom.space_notMem_text
  · rw [atoms_pieces]
    intro piece member
    obtain ⟨atom, -, rfl⟩ := List.mem_map.mp member
    exact ⟨'.', atom.dot_mem_text, by decide⟩

/-- Values may contain dots, operators and quotes. -/
example : ∃ line : SuchThatLine,
    line.text = "1.month<=12 xor 0.cust<>'a.b='".toList ∧
      Conditions.ofText line.text =
        some ⟨[⟨1, "month", "<=", "12"⟩, ⟨0, "cust", "!=", "\"a.b=\""⟩], ["xor"]⟩ :=
  ⟨⟨⟨1, "month", .le, "12", by decide, by decide, List.all_iff_forall_prop.mp (by decide),
      by decide, by decide, by decide⟩,
    [(⟨"xor", by decide, by decide⟩,
      ⟨0, "cust", .diamond, "'a.b='", by decide, by decide,
        List.all_iff_forall_prop.mp (by decide), by decide, by decide, by decide⟩)]⟩,
    rfl, by decide⟩

end SuchThatLine
end MfQuery
