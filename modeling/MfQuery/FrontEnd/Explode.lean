import MfQuery.Lib.Failure
import MfQuery.Str

/-!
# Splitting lists

`explode` cuts a text at a separator of any length. Its index and bound are
compared in `size_t`: when the rest of the text is shorter than the separator
the bound wraps around, and the loop runs on until `substr` throws. An empty
text gives the null pointer.
-/

namespace MfQuery

open Text

/-- `subject.substr(index, count)`. -/
def substr (subject : Text) (index count : Nat) : Except Failure Text :=
  if subject.length < index then .error .thrown else .ok ((subject.drop index).take count)

/-- The loop of `explode`. A match restarts on the rest of the string with
`i = 1`. -/
def explodeLoop (quan : Text) : Nat → Text → Nat → Except Failure (List Text)
  | 0, _, _ => .error .thrown
  | fuel + 1, subj, i =>
      if i < toSize (subj.length - quan.length) then do
        let piece ← substr subj i quan.length
        if quan = piece then
          if i + quan.length ≤ subj.length then
            let out ← explodeLoop quan fuel (subj.drop (i + quan.length)) 1
            return subj.take i :: out
          else return [subj.take i]
        else explodeLoop quan fuel subj (i + 1)
      else return if (trim subj).length > 0 then [subj] else []

/-- `explode`; `none` is the null pointer. -/
def explode (quan subject : Text) : Except Failure (Option (List Text)) :=
  if subject.length = 0 ∨ quan.length = 0 then return none
  else some <$> explodeLoop quan (subject.length + 2) subject 0

/-! ## One step -/

theorem substr_eq_ok
    {subject : Text}
    {index : Nat}
    (inside : index ≤ subject.length)
    (count : Nat) :
    substr subject index count = .ok ((subject.drop index).take count) := by
  rw [substr, if_neg (by omega)]

/-- One round of the loop, as long as the string is not shorter than the
separator. -/
theorem explodeLoop_succ
    (quan : Text)
    (fuel : Nat)
    (subj : Text)
    (i : Nat)
    (fits : quan.length ≤ subj.length) :
    explodeLoop quan (fuel + 1) subj i =
      if i + quan.length < subj.length then
        if quan <+: subj.drop i then
          (subj.take i :: ·) <$> explodeLoop quan fuel (subj.drop (i + quan.length)) 1
        else explodeLoop quan fuel subj (i + 1)
      else .ok (if (trim subj).length > 0 then [subj] else []) := by
  have bound : toSize (subj.length - quan.length) = subj.length - quan.length := by
    rw [toSize_of_nonneg (by omega)]
    omega
  rw [explodeLoop, bound]
  by_cases inside : i + quan.length < subj.length
  · have piece : quan = (subj.drop i).take quan.length ↔ quan <+: subj.drop i :=
      List.prefix_iff_eq_take.symm
    rw [if_pos (by omega), if_pos inside, substr_eq_ok (by omega)]
    by_cases found : quan <+: subj.drop i
    · rw [if_pos found]
      change (if quan = _ then _ else _) = _
      rw [if_pos (piece.mpr found), if_pos (by omega)]
      rfl
    · rw [if_neg found]
      change (if quan = _ then _ else _) = _
      rw [if_neg (fun equal => found (piece.mp equal))]
  · rw [if_neg (by omega), if_neg inside]
    rfl

/-! ## Separators of one character -/

/-- With one character the bound never wraps, and the loop is the one of
`c_explode`. -/
theorem explodeLoop_singleton
    (quan : Char)
    (fuel : Nat)
    (passed rest : Text)
    (nonempty : passed ++ rest ≠ [])
    (enough : rest.length < fuel) :
    explodeLoop [quan] fuel (passed ++ rest) passed.length =
      .ok (cExplodeLoop quan passed rest) := by
  induction fuel generalizing passed rest with
  | zero => omega
  | succ fuel inductionHypothesis =>
      have long : [quan].length ≤ (passed ++ rest).length := by
        rw [List.length_singleton]
        exact List.length_pos_iff.mpr nonempty
      rw [explodeLoop_succ [quan] fuel (passed ++ rest) passed.length long]
      simp only [List.length_append, List.length_singleton, List.drop_left, List.take_left]
      match rest, enough with
      | [], _ => simp [cExplodeLoop]
      | [current], _ => simp [cExplodeLoop]
      | current :: next :: rest, enough =>
          simp only [List.length_cons] at enough
          rw [if_pos (by simp only [List.length_cons]; omega), cExplodeLoop]
          by_cases found : current = quan
          · have later := inductionHypothesis [next] rest (by simp) (by omega)
            have begins : [quan] <+: current :: next :: rest := by simp [found]
            have dropped : (passed ++ current :: next :: rest).drop (passed.length + 1) =
                [next] ++ rest := by
              rw [← List.drop_drop, List.drop_left]
              rfl
            rw [if_pos begins, if_pos found, dropped]
            rw [show 1 = [next].length from rfl, later]
            rfl
          · have later := inductionHypothesis (passed ++ [current]) (next :: rest) (by simp)
              (by simp only [List.length_cons]; omega)
            have noPrefix : ¬[quan] <+: current :: next :: rest := by
              intro begins
              exact found (List.cons_prefix_cons.mp begins).1.symm
            rw [if_neg noPrefix, if_neg found, ← later]
            simp

/-- `explode` inverts joining nonempty lines. -/
theorem explode_join
    (quan : Char)
    (fields : List Text)
    (present : fields ≠ [])
    (wellFormed : Fields quan fields) :
    explode [quan] (joinWith quan fields) = .ok (some fields) := by
  have split := cExplode_join quan fields present wellFormed
  obtain ⟨first, rest, rfl⟩ := List.exists_cons_of_ne_nil present
  have nonempty := joinWith_ne_nil quan rest (wellFormed.nonempty first (by simp))
  have loop := explodeLoop_singleton quan ((joinWith quan (first :: rest)).length + 2) []
    (joinWith quan (first :: rest)) nonempty (by omega)
  rw [cExplode, if_neg nonempty, Option.some.injEq] at split
  rw [List.nil_append, List.length_nil, split] at loop
  rw [explode, if_neg (by simpa using nonempty), loop]
  rfl

/-! ## Comma-separated lists -/

/-- Separator of the lists in a query. -/
def comma : Text := [',', ' ']

/-- One character is left behind the last separator that the loop cuts at.
Directly behind a cut no separator is looked for. -/
def cutsShort : Text → Bool
  | ',' :: ' ' :: [_] => true
  | ',' :: ' ' :: _ :: rest => cutsShort rest
  | _ :: rest => cutsShort rest
  | [] => false

/-- The last entry of a list is a single character. -/
def endsShort (text : Text) : Bool := decide (text.length = 1) || cutsShort text

theorem cutsShort_comma
    (next : Char)
    {rest : Text}
    (nonempty : rest ≠ []) :
    cutsShort (comma ++ next :: rest) = cutsShort rest := by
  obtain ⟨first, rest, rfl⟩ := List.exists_cons_of_ne_nil nonempty
  rfl

theorem cutsShort_cons
    {current : Char}
    {rest : Text}
    (noPrefix : ¬comma <+: current :: rest) :
    cutsShort (current :: rest) = cutsShort rest := by
  rw [cutsShort]
  · rintro last rfl rfl
    exact noPrefix ⟨[last], rfl⟩
  · rintro next more rfl rfl
    exact noPrefix ⟨next :: more, rfl⟩

theorem cutsShort_of_length_le
    {text : Text}
    (short : text.length ≤ comma.length) :
    cutsShort text = false := by
  have two : comma.length = 2 := rfl
  fun_induction cutsShort text with
  | case1 | case2 | case4 => simp_all
  | case3 current rest _ _ inductionHypothesis =>
      rw [List.length_cons] at short
      exact inductionHypothesis (by omega)

/-- On a rest shorter than the separator the loop throws. -/
theorem explodeLoop_throws
    (fuel : Nat)
    {subj : Text}
    {i : Nat}
    (short : subj.length < comma.length)
    (near : i ≤ subj.length + 1) :
    explodeLoop comma fuel subj i = .error .thrown := by
  have two : comma.length = 2 := rfl
  induction fuel generalizing i with
  | zero => rfl
  | succ fuel inductionHypothesis =>
      have wraps : i < toSize (subj.length - comma.length) := by
        rw [toSize, if_neg (by omega)]
        omega
      rw [explodeLoop, if_pos wraps]
      by_cases beyond : subj.length < i
      · rw [substr, if_pos beyond]
        rfl
      · have different : comma ≠ (subj.drop i).take comma.length := by
          intro found
          have length := congrArg List.length found
          rw [List.length_take, List.length_drop] at length
          omega
        rw [substr_eq_ok (by omega)]
        change (if comma = _ then _ else explodeLoop comma fuel subj (i + 1)) = _
        rw [if_neg different]
        exact inductionHypothesis (by omega)

/-- The loop throws exactly when one character is left behind its last cut. -/
theorem explodeLoop_comma
    (fuel : Nat)
    (subj : Text)
    (i : Nat)
    (fits : comma.length ≤ subj.length)
    (enough : subj.length < fuel + i)
    (inside : i ≤ subj.length) :
    (cutsShort (subj.drop i) = true ∧ explodeLoop comma fuel subj i = .error .thrown) ∨
      (cutsShort (subj.drop i) = false ∧ ∃ out, explodeLoop comma fuel subj i = .ok out) := by
  have two : comma.length = 2 := rfl
  induction fuel generalizing subj i with
  | zero => omega
  | succ fuel inductionHypothesis =>
      rw [explodeLoop_succ comma fuel subj i fits]
      by_cases room : i + comma.length < subj.length
      swap
      · right
        rw [if_neg room]
        refine ⟨cutsShort_of_length_le ?_, _, rfl⟩
        rw [List.length_drop]
        omega
      rw [if_pos room]
      by_cases found : comma <+: subj.drop i
      · rw [if_pos found]
        obtain ⟨rest, shape⟩ := found
        have restLength : rest.length = subj.length - i - 2 := by
          have length := congrArg List.length shape
          rw [List.length_append, List.length_drop] at length
          omega
        have dropped : subj.drop (i + comma.length) = rest := by
          rw [← List.drop_drop, ← shape, List.drop_left]
        rw [dropped, ← shape]
        match rest, restLength with
        | [], restLength => simp only [List.length_nil] at restLength; omega
        | [last], _ =>
            left
            rw [explodeLoop_throws fuel (by simp [two]) (by simp)]
            exact ⟨rfl, rfl⟩
        | next :: second :: rest, restLength =>
            simp only [List.length_cons] at restLength
            have later := inductionHypothesis (next :: second :: rest) 1 (by simp [two])
              (by simp only [List.length_cons]; omega) (by simp)
            rw [cutsShort_comma next (by simp)]
            rcases later with ⟨short, throws⟩ | ⟨long, out, returns⟩
            · left
              rw [throws]
              exact ⟨short, rfl⟩
            · right
              rw [returns]
              exact ⟨long, _, rfl⟩
      · have more : i < subj.length := by omega
        have later := inductionHypothesis subj (i + 1) fits (by omega) (by omega)
        rw [if_neg found]
        rw [List.drop_eq_getElem_cons more] at found ⊢
        rw [cutsShort_cons found]
        exact later

/-- `explode` throws on a comma-separated list exactly when its last entry is a
single character. -/
theorem explode_comma_cases (text : Text) :
    (endsShort text = true ∧ explode comma text = .error .thrown) ∨
      (endsShort text = false ∧ ∃ out, explode comma text = .ok out) := by
  match text with
  | [] => exact Or.inr ⟨rfl, none, rfl⟩
  | [only] =>
      left
      rw [explode, if_neg (by simp [comma]), explodeLoop_throws _ (by simp [comma]) (by simp)]
      exact ⟨rfl, rfl⟩
  | first :: second :: rest =>
      have loop := explodeLoop_comma ((first :: second :: rest).length + 2)
        (first :: second :: rest) 0 (by simp [comma]) (by omega) (by simp)
      rw [List.drop_zero] at loop
      rw [explode, if_neg (by simp [comma]), endsShort, decide_eq_false (by simp), Bool.false_or]
      rcases loop with ⟨short, throws⟩ | ⟨long, out, returns⟩
      · left
        rw [throws]
        exact ⟨short, rfl⟩
      · right
        rw [returns]
        exact ⟨long, some out, rfl⟩

theorem explode_comma_returns_iff (text : Text) :
    (∃ out, explode comma text = .ok out) ↔ endsShort text = false := by
  rcases explode_comma_cases text with ⟨short, throws⟩ | ⟨long, returns⟩
  · rw [throws, short]
    constructor
    · rintro ⟨out, impossible⟩
      cases impossible
    · intro impossible
      cases impossible
  · exact ⟨fun _ => long, fun _ => returns⟩

end MfQuery
