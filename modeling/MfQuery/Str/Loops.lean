import Mathlib.Data.List.DropRight
import MfQuery.Lib.Iteration
import MfQuery.Str

/-!
# The loops of the string library

`trim` and `c_explode` walk over a string by index. Their loops are modelled
round by round, with every access checked: a read behind the terminating zero
and a call of `at` behind the last character fail. The loops return on every
string (`c_explode` on every nonempty one) and compute the functions of the
model. `trim` reads the terminating zero first when it looks for blanks at the
end, so it removes blanks at the beginning only.
-/

namespace MfQuery

open Text

/-! ## `trim` -/

/-- `str[index]`; behind the terminating zero there is nothing to read. -/
def charAt? (str : Text) (index : Nat) : Option Char :=
  if index ≤ str.length then some (charAt str index) else none

/-- A round of the first loop of `trim`. -/
def trimStartRound (str : Text) (stop start : Nat) : Round Nat Nat :=
  match charAt? str start with
  | none => .failed
  | some character =>
      if isBlank character && decide (start ≤ stop) then .next (start + 1) else .done start

/-- A round of the second loop of `trim`. -/
def trimEndRound (str : Text) (start stop : Nat) : Round Nat Nat :=
  match charAt? str stop with
  | none => .failed
  | some character =>
      if isBlank character && decide (start < stop) then .next (stop - 1) else .done stop

/-- `trim`, with the given fuel for each of its loops. -/
def trimRun (fuel : Nat) (str : Text) : Option Text := do
  let start ← Round.run (trimStartRound str str.length) fuel 0
  let stop ← Round.run (trimEndRound str start) fuel str.length
  let count := toSize (stop - start)
  if count = 0 then some []
  else if start ≤ str.length then some ((str.drop start).take count)
  else none

/-- `trim` returns the text, without a read behind the terminating zero. -/
def TrimReturns (str result : Text) : Prop := ∃ fuel, trimRun fuel str = some result

theorem charAt?_of_le
    {str : Text}
    {index : Nat}
    (inside : index ≤ str.length) :
    charAt? str index = some (charAt str index) := by
  rw [charAt?, if_pos inside]

theorem trimStartRound_of_le
    {str : Text}
    {start : Nat}
    (inside : start ≤ str.length) :
    trimStartRound str str.length start =
      if isBlank (charAt str start) then .next (start + 1) else .done start := by
  rw [trimStartRound, charAt?_of_le inside, decide_eq_true inside]
  simp only [Bool.and_true]

/-- The first loop has passed only leading blanks. -/
def PassesBlanks (str : Text) (start : Nat) : Prop :=
  start ≤ str.length ∧
    start + ((str.drop start).takeWhile isBlank).length = (str.takeWhile isBlank).length

theorem trimStartRound_step
    {str : Text}
    {start : Nat}
    (passes : PassesBlanks str start) :
    (∃ later, trimStartRound str str.length start = .next later ∧ PassesBlanks str later ∧
        str.length - later < str.length - start) ∨
      ∃ result, trimStartRound str str.length start = .done result ∧
        result = (str.takeWhile isBlank).length := by
  obtain ⟨inside, counted⟩ := passes
  rw [trimStartRound_of_le inside]
  by_cases atEnd : start = str.length
  · subst atEnd
    right
    refine ⟨str.length, by rw [charAt_length]; rfl, ?_⟩
    simpa using counted
  · have before : start < str.length := by omega
    have current : charAt str start = str.get ⟨start, before⟩ := by simp [charAt, before]
    have headOfDrop : str.drop start = str.get ⟨start, before⟩ :: str.drop (start + 1) :=
      List.drop_eq_getElem_cons before
    rw [headOfDrop, List.takeWhile_cons] at counted
    rw [current]
    cases blank : isBlank (str.get ⟨start, before⟩) with
    | true =>
        rw [blank, if_pos rfl, List.length_cons] at counted
        left
        exact ⟨start + 1, if_pos rfl, ⟨before, by omega⟩, by omega⟩
    | false =>
        rw [blank, if_neg Bool.false_ne_true, List.length_nil, Nat.add_zero] at counted
        right
        exact ⟨start, if_neg Bool.false_ne_true, counted⟩

/-- The first loop returns the number of leading blanks. -/
theorem trimStartRound_returns (str : Text) :
    Round.Returns (trimStartRound str str.length) 0 (str.takeWhile isBlank).length := by
  obtain ⟨start, returned, rfl⟩ := Round.exists_returns (PassesBlanks str)
    (fun start => str.length - start) (fun start => start = (str.takeWhile isBlank).length)
    (fun _ => trimStartRound_step) 0 ⟨Nat.zero_le _, by simp⟩
  exact returned

/-- The second loop reads the terminating zero and stops at once. -/
theorem trimEndRound_returns
    (str : Text)
    (start : Nat) :
    Round.Returns (trimEndRound str start) str.length str.length := by
  refine ⟨1, Round.run_done ?_ 0⟩
  rw [trimEndRound, charAt?_of_le le_rfl, charAt_length]
  rfl

/-- `trim` returns on every string. -/
theorem trimReturns_trim (str : Text) : TrimReturns str (trim str) := by
  obtain ⟨startFuel, started⟩ := trimStartRound_returns str
  obtain ⟨stopFuel, stopped⟩ := trimEndRound_returns str (str.takeWhile isBlank).length
  have inside : (str.takeWhile isBlank).length ≤ str.length := (List.takeWhile_prefix _).length_le
  have count : toSize ((str.length : Int) - (str.takeWhile isBlank).length) =
      str.length - (str.takeWhile isBlank).length := by
    rw [toSize_of_nonneg (by omega)]
    omega
  refine ⟨max startFuel stopFuel, ?_⟩
  rw [trimRun, Round.run_of_le started (le_max_left ..), Option.bind_eq_bind, Option.bind_some,
    Round.run_of_le stopped (le_max_right ..), Option.bind_some]
  simp only [count, if_pos inside, drop_leadingBlanks, trim_eq_dropWhile]
  have total := length_leadingBlanks str
  split_ifs with empty
  · have nothing : str.dropWhile isBlank = [] := List.eq_nil_of_length_eq_zero (by omega)
    rw [nothing]
  · rw [List.take_of_length_le (by omega)]

theorem trimRun_of_le
    {str result : Text}
    {fuel more : Nat}
    (returned : trimRun fuel str = some result)
    (enough : fuel ≤ more) :
    trimRun more str = some result := by
  simp only [trimRun, Option.bind_eq_bind, Option.bind_eq_some_iff] at returned ⊢
  obtain ⟨start, started, stop, stopped, cut⟩ := returned
  exact ⟨start, Round.run_of_le started enough, stop, Round.run_of_le stopped enough, cut⟩

theorem TrimReturns.eq_trim
    {str result : Text}
    (returned : TrimReturns str result) :
    result = trim str := by
  obtain ⟨fuel, ran⟩ := returned
  obtain ⟨ownFuel, ownRan⟩ := trimReturns_trim str
  have atMax := trimRun_of_le ran (le_max_left fuel ownFuel)
  rw [trimRun_of_le ownRan (le_max_right fuel ownFuel)] at atMax
  exact (Option.some.inj atMax).symm

/-- The text between the blanks at both ends of a string. -/
structure Trimmed (str result : Text) : Prop where
  removed : ∃ front back, str = front ++ result ++ back ∧
    (∀ character ∈ front, isBlank character = true) ∧
    ∀ character ∈ back, isBlank character = true
  first : ∀ character ∈ result.head?, isBlank character = false
  last : ∀ character ∈ result.getLast?, isBlank character = false

theorem head_dropWhile_isBlank (str : Text) :
    ∀ character ∈ (str.dropWhile isBlank).head?, isBlank character = false := by
  intro character member
  have found := List.head?_dropWhile_not isBlank str
  rw [Option.mem_def] at member
  rw [member] at found
  exact found

/-- Removing leading blanks from a string leaves the text between the blanks at
both ends exactly when the string is blank or does not end in a blank. -/
theorem trimmed_dropWhile_iff (str : Text) :
    Trimmed str (str.dropWhile isBlank) ↔
      (∀ character ∈ str, isBlank character = true) ∨
        ∀ character ∈ str.getLast?, isBlank character = false := by
  have whole : str.takeWhile isBlank ++ str.dropWhile isBlank = str :=
    List.takeWhile_append_dropWhile
  have blanks : ∀ character ∈ str.takeWhile isBlank, isBlank character = true :=
    fun _ member => List.mem_takeWhile_imp member
  constructor
  · intro trimmed
    by_cases empty : str.dropWhile isBlank = []
    · exact .inl (List.dropWhile_eq_nil_iff.mp empty)
    · right
      intro character member
      rw [← whole, List.getLast?_append_of_ne_nil _ empty] at member
      exact trimmed.last character member
  · rintro (blank | visible)
    · have empty : str.dropWhile isBlank = [] := List.dropWhile_eq_nil_iff.mpr blank
      rw [empty]
      exact ⟨⟨str, [], by simp, blank, by simp⟩, by simp, by simp⟩
    · refine ⟨⟨str.takeWhile isBlank, [], by rw [List.append_nil, whole], blanks, by simp⟩,
        head_dropWhile_isBlank str, ?_⟩
      intro character member
      apply visible character
      rw [← whole, List.getLast?_append, member]
      rfl

/-- `trim` returns on every string without reading behind its terminating zero,
and is idempotent. It removes the blanks at both ends exactly of the strings
that are blank or do not end in a blank. -/
theorem trim_both_ends_iff (str : Text) :
    (∃ result, TrimReturns str result ∧ TrimReturns result result) ∧
      ((∃ result, TrimReturns str result ∧ Trimmed str result) ↔
        (∀ character ∈ str, isBlank character = true) ∨
          ∀ character ∈ str.getLast?, isBlank character = false) := by
  constructor
  · have again := trimReturns_trim (trim str)
    rw [trim_eq_dropWhile, trim_eq_dropWhile, List.dropWhile_idempotent] at again
    have once := trimReturns_trim str
    rw [trim_eq_dropWhile] at once
    exact ⟨_, once, again⟩
  · rw [← trimmed_dropWhile_iff, ← trim_eq_dropWhile]
    constructor
    · rintro ⟨result, returned, trimmed⟩
      rw [← returned.eq_trim]
      exact trimmed
    · intro trimmed
      exact ⟨trim str, trimReturns_trim str, trimmed⟩

/-- `trim` leaves the line feed at the end of a line. -/
theorem trim_keeps_line_feed :
    TrimReturns "cust\n" "cust\n" ∧ ¬∃ result, TrimReturns "cust\n" result ∧
      Trimmed "cust\n" result := by
  have kept : trim "cust\n" = ("cust\n" : Text) := by decide
  have returned := trimReturns_trim "cust\n"
  rw [kept] at returned
  refine ⟨returned, ?_⟩
  rintro ⟨result, other, trimmed⟩
  have same := other.eq_trim
  rw [kept] at same
  subst same
  exact absurd (trimmed.last '\n' (by decide)) (by decide)

/-! ## `c_explode` -/

/-- The variables of `c_explode` at the head of its loop. -/
structure ExplodeState where
  out : List Text
  subj : Text
  i : Nat
  slength : Nat
  deriving DecidableEq, Repr

/-- A round of the loop of `c_explode`, the step of the index included; `subj.at`
fails behind the last character. Behind a match the index is set to zero and
then stepped. -/
def cExplodeRound (quan : Char) (state : ExplodeState) :
    Round ExplodeState (List Text × Text) :=
  if state.i < toSize (state.slength - 1) then
    match state.subj[state.i]? with
    | none => .failed
    | some current =>
        if quan = current then
          let rest := state.subj.drop (state.i + 1)
          .next ⟨state.out ++ [state.subj.take state.i], rest, 1, rest.length⟩
        else .next { state with i := state.i + 1 }
  else .done (state.out, state.subj)

/-- `c_explode`, with the given fuel for each loop. -/
def cExplodeRun (quan : Char) (fuel : Nat) (subject : Text) : Option (List Text) := do
  let ended ← Round.run (cExplodeRound quan) fuel ⟨[], subject, 0, subject.length⟩
  let trimmed ← trimRun fuel ended.2
  return if trimmed.length > 0 then ended.1 ++ [ended.2] else ended.1

/-- `c_explode` returns the tokens, without an access out of range. -/
def CExplodeReturns (quan : Char) (subject : Text) (tokens : List Text) : Prop :=
  ∃ fuel, cExplodeRun quan fuel subject = some tokens

/-- The tokens, when the loop has ended with the given variables. -/
def explodedTokens (ended : List Text × Text) : List Text :=
  if (trim ended.2).length > 0 then ended.1 ++ [ended.2] else ended.1

/-- The loop has passed a part of its string, and what it has cut off and will
cut off are the tokens. -/
inductive CutsInto (quan : Char) (tokens : List Text) : ExplodeState → Prop
  | inside
      (out : List Text)
      (passed rest : Text)
      (nonempty : passed ++ rest ≠ [])
      (equal : out ++ cExplodeLoop quan passed rest = tokens) :
      CutsInto quan tokens ⟨out, passed ++ rest, passed.length, (passed ++ rest).length⟩

theorem cExplodeRound_step
    {quan : Char}
    {tokens : List Text}
    {state : ExplodeState}
    (cuts : CutsInto quan tokens state) :
    (∃ later, cExplodeRound quan state = .next later ∧ CutsInto quan tokens later ∧
        later.subj.length - later.i < state.subj.length - state.i) ∨
      ∃ ended, cExplodeRound quan state = .done ended ∧ explodedTokens ended = tokens := by
  obtain ⟨out, passed, rest, nonempty, equal⟩ := cuts
  have bound : toSize (((passed ++ rest).length : Int) - 1) = (passed ++ rest).length - 1 := by
    have positive := List.length_pos_iff.mpr nonempty
    rw [toSize_of_nonneg (by omega)]
    omega
  rw [cExplodeRound, bound]
  match rest with
  | [] =>
      right
      refine ⟨_, if_neg (by simp), ?_⟩
      rw [← equal, cExplodeLoop, explodedTokens]
      simp only [List.append_nil]
      split_ifs <;> simp
  | [current] =>
      right
      refine ⟨_, if_neg (by simp), ?_⟩
      rw [← equal, cExplodeLoop, explodedTokens]
      split_ifs <;> simp
  | current :: next :: rest =>
      left
      rw [if_pos (by simp), List.getElem?_append_right le_rfl, Nat.sub_self,
        List.getElem?_cons_zero]
      rw [cExplodeLoop] at equal
      by_cases found : current = quan
      · subst found
        rw [if_pos rfl] at equal
        have behind : (passed ++ current :: next :: rest).drop (passed.length + 1) =
            [next] ++ rest := by simp
        have before : (passed ++ current :: next :: rest).take passed.length = passed := by simp
        refine ⟨_, if_pos rfl, ?_, ?_⟩
        · rw [behind, before]
          exact .inside _ [next] rest (by simp) (by simpa using equal)
        · rw [behind]
          simp
      · rw [if_neg found] at equal
        refine ⟨_, if_neg fun same => found same.symm, ?_, ?_⟩
        · have later := CutsInto.inside out (passed ++ [current]) (next :: rest) (by simp) equal
          simpa using later
        · simp
          omega

/-- The loop ends on every nonempty string. -/
theorem cExplodeRound_returns
    (quan : Char)
    {subject : Text}
    (nonempty : subject ≠ []) :
    ∃ ended, Round.Returns (cExplodeRound quan) ⟨[], subject, 0, subject.length⟩ ended ∧
      explodedTokens ended = cExplodeLoop quan [] subject :=
  Round.exists_returns (CutsInto quan (cExplodeLoop quan [] subject))
    (fun state => state.subj.length - state.i)
    (fun ended => explodedTokens ended = cExplodeLoop quan [] subject)
    (fun _ => cExplodeRound_step) _ (.inside [] [] subject nonempty rfl)

theorem cExplodeRun_of_le
    {quan : Char}
    {subject : Text}
    {tokens : List Text}
    {fuel more : Nat}
    (returned : cExplodeRun quan fuel subject = some tokens)
    (enough : fuel ≤ more) :
    cExplodeRun quan more subject = some tokens := by
  simp only [cExplodeRun, Option.bind_eq_bind, Option.bind_eq_some_iff] at returned ⊢
  obtain ⟨ended, looped, trimmed, trims, result⟩ := returned
  exact ⟨ended, Round.run_of_le looped enough, trimmed, trimRun_of_le trims enough, result⟩

/-- `c_explode` returns on every nonempty string. -/
theorem cExplodeReturns_loop
    (quan : Char)
    {subject : Text}
    (nonempty : subject ≠ []) :
    CExplodeReturns quan subject (cExplodeLoop quan [] subject) := by
  obtain ⟨⟨out, subj⟩, ⟨loopFuel, looped⟩, equal⟩ := cExplodeRound_returns quan nonempty
  obtain ⟨trimFuel, trimmed⟩ := trimReturns_trim subj
  refine ⟨max loopFuel trimFuel, ?_⟩
  rw [cExplodeRun, Round.run_of_le looped (le_max_left ..), Option.bind_eq_bind, Option.bind_some,
    trimRun_of_le trimmed (le_max_right ..), ← equal]
  rfl

/-- `c_explode` returns what the model computes; on the empty string the bound
of the loop wraps around and the first access fails. -/
theorem cExplodeReturns_iff
    (quan : Char)
    (subject : Text)
    (tokens : List Text) :
    CExplodeReturns quan subject tokens ↔ cExplode quan subject = some tokens := by
  by_cases empty : subject = []
  · subst empty
    have fails (fuel : Nat) : cExplodeRun quan fuel [] = none := by
      cases fuel <;> rfl
    simp [CExplodeReturns, fails, cExplode]
  · rw [cExplode, if_neg empty, Option.some.injEq]
    constructor
    · rintro ⟨fuel, returned⟩
      obtain ⟨ownFuel, ownReturned⟩ := cExplodeReturns_loop quan empty
      have atMax := cExplodeRun_of_le returned (le_max_left fuel ownFuel)
      rw [cExplodeRun_of_le ownReturned (le_max_right fuel ownFuel)] at atMax
      exact Option.some.inj atMax
    · rintro rfl
      exact cExplodeReturns_loop quan empty

/-- The tokens of a string, joined by the delimiter or each followed by it,
give the string back up to blanks at its end. -/
theorem cExplodeLoop_lossless
    (quan : Char)
    (passed rest : Text)
    (nonempty : passed ++ rest ≠ []) :
    passed ++ rest = joinWith quan (cExplodeLoop quan passed rest) ∨
      ∃ blanks, (∀ character ∈ blanks, isBlank character = true) ∧
        passed ++ rest =
          (cExplodeLoop quan passed rest).flatMap (fun token => token ++ [quan]) ++ blanks := by
  have blankOf {text : Text} (empty : ¬(trim text).length > 0) :
      ∀ character ∈ text, isBlank character = true := by
    rw [trim_eq_dropWhile, Nat.not_lt, Nat.le_zero, List.length_eq_zero_iff,
      List.dropWhile_eq_nil_iff] at empty
    exact empty
  fun_induction cExplodeLoop quan passed rest with
  | case1 passed next rest inductionHypothesis =>
      rcases inductionHypothesis (by simp) with joined | ⟨blanks, isBlank, followed⟩
      · left
        obtain ⟨token, tokens, later⟩ : ∃ token tokens,
            cExplodeLoop quan [next] rest = token :: tokens := by
          apply List.exists_cons_of_ne_nil
          intro empty
          rw [empty] at joined
          cases joined
        rw [later] at joined ⊢
        rw [joinWith, ← joined]
        rfl
      · right
        refine ⟨blanks, isBlank, ?_⟩
        rw [List.flatMap_cons, List.append_assoc, ← followed]
        simp
  | case2 passed current next rest different inductionHypothesis =>
      simpa using inductionHypothesis
  | case3 passed current visible => exact .inl rfl
  | case4 passed current empty => exact .inr ⟨passed ++ [current], blankOf empty, rfl⟩
  | case5 passed visible => exact .inl (List.append_nil _)
  | case6 passed empty => exact .inr ⟨passed, blankOf empty, List.append_nil _⟩

/-- `c_explode` returns on every nonempty string without an access out of
range. The string is its tokens joined by the delimiter, or its tokens each
followed by the delimiter and then blanks; nonempty delimiter-free fields, the
last of them not blank, are cut apart exactly where they were joined. -/
theorem c_explode_splits
    (quan : Char)
    (subject : Text)
    (nonempty : subject ≠ []) :
    ∃ tokens, CExplodeReturns quan subject tokens ∧
      (subject = joinWith quan tokens ∨
        ∃ blanks, (∀ character ∈ blanks, isBlank character = true) ∧
          subject = tokens.flatMap (fun token => token ++ [quan]) ++ blanks) ∧
      ∀ fields, Fields quan fields → subject = joinWith quan fields → tokens = fields := by
  refine ⟨_, cExplodeReturns_loop quan nonempty, cExplodeLoop_lossless quan [] subject nonempty, ?_⟩
  rintro fields wellFormed rfl
  have present : fields ≠ [] := by
    rintro rfl
    exact nonempty rfl
  have exploded := cExplode_join quan fields present wellFormed
  rw [cExplode, if_neg nonempty] at exploded
  exact Option.some.inj exploded

/-- Three words are cut apart at their spaces. -/
theorem c_explode_splits_words :
    ∃ tokens, CExplodeReturns ' ' "sum and avg" tokens ∧
      tokens = ([("sum" : Text), "and", "avg"]) := by
  obtain ⟨tokens, returned, -, split⟩ := c_explode_splits ' ' "sum and avg" (by decide)
  refine ⟨tokens, returned, split _ ⟨by decide, by decide, ?_⟩ (by decide)⟩
  rintro last ⟨⟩
  exact ⟨'a', by decide, by decide⟩

end MfQuery
