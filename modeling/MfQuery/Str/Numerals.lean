import MfQuery.Str

/-!
# Integer rendering

`itoa` and `ltos` write an integer by calling themselves on its tenth, and on
its negation when it is negative. The negation is computed in the width of the
type, so the smallest integer is its own negation and the calls on it never
end. Every other integer gives its decimal numeral.
-/

namespace MfQuery

open Text

/-- The table of digits. -/
def digitTexts : List Text := ["0", "1", "2", "3", "4", "5", "6", "7", "8", "9"]

/-- The calls common to `itoa` and `ltos`, in the width of the integer; an index
outside the table fails. -/
def renderCalls {w : Nat} : Nat → BitVec w → Option Text
  | 0, _ => none
  | fuel + 1, i =>
      if i.slt 0#w then (renderCalls fuel (i * -1#w)).map ("-".toList ++ ·)
      else if (10#w).sle i then do
        let front ← renderCalls fuel (i.sdiv 10#w)
        let last ← digitTexts[(i.srem 10#w).toNat]?
        return front ++ last
      else digitTexts[i.toNat]?

/-- The calls of `itoa`. -/
def itoaCalls (fuel : Nat) (i : BitVec 32) : Option Text := renderCalls fuel i

/-- The calls of `ltos`. -/
def ltosCalls (fuel : Nat) (i : BitVec 64) : Option Text := renderCalls fuel i

/-- The decimal numeral of an integer. -/
def decimal (i : Int) : Text := if i < 0 then '-' :: numeral i.natAbs else numeral i.natAbs

theorem itoa_eq_decimal : itoa = decimal := rfl

/-- The calls on an integer end with its decimal numeral, and the numeral is
read back as the integer. -/
def Renders {w : Nat} (calls : Nat → BitVec w → Option Text) (i : BitVec w) : Prop :=
  ∃ text, (∃ fuel, calls fuel i = some text) ∧ text = decimal i.toInt ∧
    readSigned text = some i.toInt

/-! ## The calls -/

theorem digitTexts_eq
    {digit : Nat}
    (small : digit < 10) :
    digitTexts[digit]? = some (numeral digit) := by
  interval_cases digit <;> rfl

theorem numeral_of_ten_le
    {value : Nat}
    (large : 10 ≤ value) :
    numeral value = numeral (value / 10) ++ numeral (value % 10) := by
  have last := Nat.toDigits_of_lt_base (Nat.mod_lt value (by omega : 0 < 10))
  rw [numeral, numeral, numeral, Nat.toDigits_of_base_le (by omega) large, last]

section Width

variable {w : Nat}

theorem toNat_of_toInt_nonneg
    {i : BitVec w}
    (nonneg : 0 ≤ i.toInt) :
    (i.toNat : Int) = i.toInt := by
  have bound := i.isLt
  rw [BitVec.toInt_eq_toNat_cond] at nonneg ⊢
  split_ifs at nonneg ⊢ <;> omega

/-- Ten is an integer of the width. -/
theorem toInt_ten (wide : 5 ≤ w) : (10#w).toInt = 10 := by
  have large : 2 ^ 5 ≤ 2 ^ w := Nat.pow_le_pow_right (by omega) wide
  rw [BitVec.toInt_ofNat', Int.bmod_eq_of_le]
  · rfl
  · omega
  · omega

theorem toNat_sdiv_ten
    (wide : 5 ≤ w)
    {i : BitVec w}
    (nonneg : 0 ≤ i.toInt) :
    0 ≤ (i.sdiv 10#w).toInt ∧ (i.sdiv 10#w).toNat = i.toNat / 10 := by
  have ten := toInt_ten wide
  have notMinusOne : 10#w ≠ -1#w := by
    have large : 2 ^ 5 ≤ 2 ^ w := Nat.pow_le_pow_right (by omega) wide
    rw [BitVec.neg_one_eq_allOnes]
    intro equal
    have values := congrArg BitVec.toNat equal
    rw [BitVec.toNat_ofNat, BitVec.toNat_allOnes, Nat.mod_eq_of_lt (by omega)] at values
    omega
  have divided : (i.sdiv 10#w).toInt = i.toInt / 10 := by
    rw [BitVec.toInt_sdiv_of_ne_or_ne i _ (.inr notMinusOne), ten, Int.tdiv_eq_ediv_of_nonneg nonneg]
  have isNonneg : 0 ≤ (i.sdiv 10#w).toInt := by omega
  have quotient := toNat_of_toInt_nonneg isNonneg
  have whole := toNat_of_toInt_nonneg nonneg
  exact ⟨isNonneg, by omega⟩

theorem toNat_srem_ten
    (wide : 5 ≤ w)
    {i : BitVec w}
    (nonneg : 0 ≤ i.toInt) :
    (i.srem 10#w).toNat = i.toNat % 10 := by
  have remainder : (i.srem 10#w).toInt = i.toInt % 10 := by
    rw [BitVec.toInt_srem, toInt_ten wide, Int.tmod_eq_emod_of_nonneg nonneg]
  have last := toNat_of_toInt_nonneg (i := i.srem 10#w) (by omega)
  have whole := toNat_of_toInt_nonneg nonneg
  omega

theorem renderCalls_nonneg
    (wide : 5 ≤ w)
    {i : BitVec w}
    (nonneg : 0 ≤ i.toInt)
    {fuel : Nat}
    (enough : i.toNat < fuel) :
    renderCalls fuel i = some (numeral i.toNat) := by
  induction fuel generalizing i with
  | zero => omega
  | succ fuel inductionHypothesis =>
      have isNat := toNat_of_toInt_nonneg nonneg
      have ten := toInt_ten wide
      have notNegative : ¬i.slt 0#w = true := by
        rw [BitVec.slt_iff_toInt_lt, BitVec.toInt_zero]
        omega
      rw [renderCalls, if_neg notNegative]
      by_cases large : (10#w).sle i = true
      · rw [if_pos large]
        rw [BitVec.sle_iff_toInt_le, ten] at large
        obtain ⟨quotientNonneg, quotient⟩ := toNat_sdiv_ten wide nonneg
        have front := inductionHypothesis quotientNonneg (by omega)
        have last := digitTexts_eq (Nat.mod_lt i.toNat (by omega : 0 < 10))
        have whole : numeral i.toNat = _ := numeral_of_ten_le (by omega)
        rw [front, toNat_srem_ten wide nonneg, last, quotient, whole]
        rfl
      · rw [if_neg large]
        rw [BitVec.sle_iff_toInt_le, ten] at large
        exact digitTexts_eq (by omega)

/-- More fuel does not change the text. -/
theorem renderCalls_of_le
    {i : BitVec w}
    {fuel more : Nat}
    {text : Text}
    (returned : renderCalls fuel i = some text)
    (enough : fuel ≤ more) :
    renderCalls more i = some text := by
  induction fuel generalizing i more text with
  | zero => cases returned
  | succ fuel inductionHypothesis =>
      obtain ⟨more, rfl⟩ : ∃ less, more = less + 1 := ⟨more - 1, by omega⟩
      rw [renderCalls] at returned ⊢
      split_ifs at returned ⊢
      · obtain ⟨digits, later, rfl⟩ := Option.map_eq_some_iff.mp returned
        rw [inductionHypothesis later (by omega)]
        rfl
      · simp only [Option.bind_eq_bind, Option.bind_eq_some_iff] at returned ⊢
        obtain ⟨front, later, rest⟩ := returned
        exact ⟨front, inductionHypothesis later (by omega), rest⟩
      · exact returned

/-- The calls on the smallest integer never end: it is its own negation. -/
theorem renderCalls_intMin
    (positive : 0 < w)
    (fuel : Nat) :
    renderCalls fuel (BitVec.intMin w) = none := by
  induction fuel with
  | zero => rfl
  | succ fuel inductionHypothesis =>
      have negative : (BitVec.intMin w).slt 0#w = true := by
        rw [BitVec.slt_iff_toInt_lt, BitVec.toInt_zero, BitVec.toInt_intMin_of_pos positive]
        have power : (0 : Int) < 2 ^ (w - 1) := by positivity
        omega
      have negated : BitVec.intMin w * -1#w = BitVec.intMin w := by
        rw [BitVec.mul_neg, BitVec.mul_one, BitVec.neg_intMin]
      rw [renderCalls, if_pos negative, negated, inductionHypothesis]
      rfl

/-- The calls on every other integer end with its decimal numeral. -/
theorem renderCalls_of_ne
    (wide : 5 ≤ w)
    {i : BitVec w}
    (notSmallest : i ≠ BitVec.intMin w) :
    ∃ fuel, renderCalls fuel i = some (decimal i.toInt) := by
  rcases lt_or_ge i.toInt 0 with negative | nonneg
  · have isNegative : i.slt 0#w = true := by
      rw [BitVec.slt_iff_toInt_lt, BitVec.toInt_zero]
      exact negative
    have negated : (-i).toInt = -i.toInt := BitVec.toInt_neg_of_ne_intMin notSmallest
    have negatedNat := toNat_of_toInt_nonneg (i := -i) (by omega)
    have rendered := renderCalls_nonneg wide (i := -i) (by omega) (Nat.lt_succ_self _)
    refine ⟨(-i).toNat + 1 + 1, ?_⟩
    rw [renderCalls, if_pos isNegative, BitVec.mul_neg, BitVec.mul_one, rendered, decimal,
      if_pos negative, Option.map_some, show (-i).toNat = i.toInt.natAbs by omega]
    rfl
  · have isNat := toNat_of_toInt_nonneg nonneg
    refine ⟨i.toNat + 1, ?_⟩
    rw [renderCalls_nonneg wide nonneg (Nat.lt_succ_self _), decimal, if_neg (by omega),
      show i.toNat = i.toInt.natAbs by omega]

/-- Only the smallest integer is not rendered. -/
theorem renders_renderCalls_iff
    (wide : 5 ≤ w)
    (i : BitVec w) :
    Renders renderCalls i ↔ i ≠ BitVec.intMin w := by
  constructor
  · rintro ⟨text, ⟨fuel, returned⟩, -⟩ rfl
    rw [renderCalls_intMin (by omega)] at returned
    cases returned
  · intro notSmallest
    obtain ⟨fuel, returned⟩ := renderCalls_of_ne wide notSmallest
    exact ⟨_, ⟨fuel, returned⟩, rfl, readSigned_itoa _⟩

/-- Integers with the same text are the same. -/
theorem renderCalls_injective
    (wide : 5 ≤ w)
    {i j : BitVec w}
    {text : Text}
    (first : ∃ fuel, renderCalls fuel i = some text)
    (second : ∃ fuel, renderCalls fuel j = some text) :
    i = j := by
  have value {i : BitVec w} (returned : ∃ fuel, renderCalls fuel i = some text) :
      text = decimal i.toInt := by
    obtain ⟨fuel, returned⟩ := returned
    have notSmallest : i ≠ BitVec.intMin w := by
      rintro rfl
      rw [renderCalls_intMin (by omega)] at returned
      cases returned
    obtain ⟨enough, rendered⟩ := renderCalls_of_ne wide notSmallest
    have atMax := renderCalls_of_le returned (le_max_left fuel enough)
    rw [renderCalls_of_le rendered (le_max_right fuel enough)] at atMax
    exact (Option.some.inj atMax).symm
  have same := (value first).symm.trans (value second)
  rw [← itoa_eq_decimal] at same
  exact BitVec.eq_of_toInt_eq (itoa_injective same)

end Width

/-- `itoa` ends with the decimal numeral of an `int`, which is read back as the
integer, exactly when it is not the smallest one, and `ltos` likewise for an
`int64_t`. No other integer gets the same text. -/
theorem integers_rendered_iff
    (small : BitVec 32)
    (large : BitVec 64) :
    (Renders itoaCalls small ↔ small ≠ BitVec.intMin 32) ∧
      (Renders ltosCalls large ↔ large ≠ BitVec.intMin 64) ∧
      (∀ (other : BitVec 32) (text : Text), (∃ fuel, itoaCalls fuel small = some text) →
        (∃ fuel, itoaCalls fuel other = some text) → small = other) ∧
      ∀ (other : BitVec 64) (text : Text), (∃ fuel, ltosCalls fuel large = some text) →
        (∃ fuel, ltosCalls fuel other = some text) → large = other := by
  refine ⟨renders_renderCalls_iff (by decide) small, renders_renderCalls_iff (by decide) large, ?_,
    ?_⟩
  · intro other text
    exact renderCalls_injective (by decide)
  · intro other text
    exact renderCalls_injective (by decide)

/-- On `-2147483648` the calls of `itoa` never end, nor do those of `ltos` on
`-9223372036854775808`. -/
theorem smallest_integers_not_rendered :
    (¬∃ fuel text, itoaCalls fuel (BitVec.ofInt 32 (-2147483648)) = some text) ∧
      ¬∃ fuel text, ltosCalls fuel (BitVec.ofInt 64 (-9223372036854775808)) = some text := by
  have small : BitVec.ofInt 32 (-2147483648) = BitVec.intMin 32 := by decide
  have large : BitVec.ofInt 64 (-9223372036854775808) = BitVec.intMin 64 := by decide
  rw [small, large]
  constructor
  · rintro ⟨fuel, text, returned⟩
    rw [itoaCalls, renderCalls_intMin (by decide)] at returned
    cases returned
  · rintro ⟨fuel, text, returned⟩
    rw [ltosCalls, renderCalls_intMin (by decide)] at returned
    cases returned

end MfQuery
