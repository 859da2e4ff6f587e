import Mathlib.Data.List.Infix
import Mathlib.Data.List.TakeWhile
import Mathlib.Tactic

/-!
# Texts

A text is a list of characters. The operations here are the ones of
`std::string` that a program which assembles source text relies on: substring
tests, identifiers and decimal numerals.
-/

namespace MfQuery

/-- A `std::string`, character by character. -/
abbrev Text := List Char

instance : Coe String Text := ⟨String.toList⟩

instance : LawfulBEq Text := inferInstanceAs (LawfulBEq (List Char))

namespace Text

/-- `text.find(part) != string::npos`. -/
def contains (text part : Text) : Bool := decide (part <:+: text)

@[simp] theorem contains_eq_true
    (text part : Text) :
    contains text part = true ↔ part <:+: text := by
  simp [contains]

/-- A character absent from the text but present in the part rules the part
out. -/
theorem contains_eq_false_of_mem
    {text part : Text}
    {character : Char}
    (present : character ∈ part)
    (absent : character ∉ text) :
    contains text part = false := by
  rw [Bool.eq_false_iff]
  intro found
  rw [contains_eq_true] at found
  exact absent (found.subset present)

/-! ## Identifiers -/

/-- First characters of an identifier. -/
def identStart (character : Char) : Bool :=
  character.isAlpha || character == '_'

/-- Later characters of an identifier. -/
def identRest (character : Char) : Bool :=
  character.isAlphanum || character == '_'

/-- The text is spelled as an identifier. -/
def isIdent : Text → Bool
  | [] => false
  | first :: rest => identStart first && rest.all identRest

theorem identRest_of_identStart
    {character : Char}
    (start : identStart character = true) :
    identRest character = true := by
  simp only [identStart, identRest, Char.isAlphanum, Bool.or_eq_true] at *
  tauto

theorem identRest_of_isDigit
    {character : Char}
    (digit : character.isDigit = true) :
    identRest character = true := by
  simp [identRest, Char.isAlphanum, digit]

/-- Every character of an identifier is an identifier character. -/
theorem identRest_of_mem
    {name : Text}
    {character : Char}
    (identifier : isIdent name = true)
    (member : character ∈ name) :
    identRest character = true := by
  cases name with
  | nil => simp at member
  | cons first rest =>
      simp only [isIdent, Bool.and_eq_true, List.all_eq_true] at identifier
      rcases List.mem_cons.mp member with equal | later
      · rw [equal]
        exact identRest_of_identStart identifier.1
      · exact identifier.2 character later

theorem ne_nil_of_isIdent
    {name : Text}
    (identifier : isIdent name = true) :
    name ≠ [] := by
  rintro rfl
  simp [isIdent] at identifier

/-- A character that cannot occur in identifiers does not occur in one. -/
theorem not_mem_of_isIdent
    {name : Text}
    {character : Char}
    (identifier : isIdent name = true)
    (foreign : identRest character = false) :
    character ∉ name := by
  intro member
  rw [identRest_of_mem identifier member] at foreign
  exact Bool.noConfusion foreign

/-- An identifier begins with a character that is no digit. -/
theorem exists_identStart_mem
    {name : Text}
    (identifier : isIdent name = true) :
    ∃ first rest, name = first :: rest ∧ identStart first = true := by
  cases name with
  | nil => simp [isIdent] at identifier
  | cons first rest =>
      simp only [isIdent, Bool.and_eq_true] at identifier
      exact ⟨first, rest, rfl, identifier.1⟩

/-! ## Decimal numerals -/

/-- Decimal numeral of a natural number. -/
def numeral (value : Nat) : Text := Nat.toDigits 10 value

theorem isDigit_of_mem_numeral
    {value : Nat}
    {character : Char}
    (member : character ∈ numeral value) :
    character.isDigit = true :=
  Nat.isDigit_of_mem_toDigits (by decide) (by decide) member

theorem numeral_ne_nil (value : Nat) : numeral value ≠ [] :=
  Nat.toDigits_ne_nil

theorem numeral_injective : Function.Injective numeral := by
  intro left right equal
  have values := congrArg (fun digits => Nat.ofDigitChars 10 digits 0) equal
  simpa only [numeral, Nat.ofDigitChars_ten_toDigits] using values

/-- Value of a text of decimal digits. -/
def ofNumeral (digits : Text) : Nat := Nat.ofDigitChars 10 digits 0

@[simp] theorem ofNumeral_numeral (value : Nat) :
    ofNumeral (numeral value) = value :=
  Nat.ofDigitChars_ten_toDigits

/-- A digit is an identifier character but never starts an identifier. -/
theorem identStart_eq_false_of_isDigit
    {character : Char}
    (digit : character.isDigit = true) :
    identStart character = false := by
  have inDigits : 48 ≤ character.toNat ∧ character.toNat ≤ 57 := Char.isDigit_iff_toNat.mp digit
  rw [Bool.eq_false_iff]
  intro start
  rcases Bool.or_eq_true_iff.mp start with alphabetic | underscore
  · rcases Bool.or_eq_true_iff.mp alphabetic with upper | lower
    · have inUpper : 65 ≤ character.toNat ∧ character.toNat ≤ 90 := of_decide_eq_true upper
      omega
    · have bounds := Bool.and_eq_true_iff.mp lower
      have inLower : 97 ≤ character.toNat ∧ character.toNat ≤ 122 :=
        ⟨of_decide_eq_true bounds.1, of_decide_eq_true bounds.2⟩
      omega
  · rw [beq_iff_eq.mp underscore] at digit
    exact absurd digit (by decide)

/-- No identifier occurs inside a text without identifier starts. -/
theorem contains_eq_false_of_isIdent
    {text name : Text}
    (identifier : isIdent name = true)
    (noStart : ∀ character ∈ text, identStart character = false) :
    contains text name = false := by
  obtain ⟨first, rest, rfl, start⟩ := exists_identStart_mem identifier
  apply contains_eq_false_of_mem (List.mem_cons_self ..)
  intro member
  rw [noStart first member] at start
  exact Bool.noConfusion start

end Text
end MfQuery
