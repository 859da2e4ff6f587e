import MfQuery.Lib.Text

/-!
# The string library

The functions of `str.cpp` that the compiler uses, each with the loop of the
source: splitting (`c_explode`, `split`), searching (`strpos_m`, `count`),
`trim`, `str_replace` and the conversions between integers and numerals.
-/

namespace MfQuery

open Text

/-! ## Offsets -/

/-- A difference of offsets in `size_t`; below zero it wraps around. -/
def toSize (offset : Int) : Nat :=
  if 0 ≤ offset then offset.toNat else (offset + 2 ^ 64).toNat

theorem toSize_of_nonneg
    {offset : Int}
    (nonneg : 0 ≤ offset) :
    toSize offset = offset.toNat := by
  rw [toSize, if_pos nonneg]

/-! ## `trim` -/

/-- `str[index]`; one past the end it is the terminating zero. -/
def charAt (str : Text) (index : Nat) : Char := str.getD index '\x00'

/-- The characters `trim` removes. -/
def isBlank (character : Char) : Bool :=
  character == '\n' || character == '\r' || character == ' '

/-- First loop of `trim`: advance `start` over blanks. -/
def trimStart (str : Text) (stop : Nat) : Nat → Nat → Nat
  | 0, start => start
  | fuel + 1, start =>
      if isBlank (charAt str start) && decide (start ≤ stop) then
        trimStart str stop fuel (start + 1)
      else start

/-- Second loop of `trim`: move `end` back over blanks. -/
def trimEnd (str : Text) (start : Nat) : Nat → Nat
  | 0 => 0
  | stop + 1 =>
      if isBlank (charAt str (stop + 1)) && decide (start < stop + 1) then
        trimEnd str start stop
      else stop + 1

/-- `trim`. -/
def trim (str : Text) : Text :=
  let start := trimStart str str.length (str.length + 2) 0
  let stop := trimEnd str start str.length
  if stop - start = 0 then [] else (str.drop start).take (stop - start)

theorem charAt_length (str : Text) : charAt str str.length = '\x00' := by
  simp [charAt]

theorem trimEnd_length (str : Text) (start : Nat) :
    trimEnd str start str.length = str.length := by
  cases str with
  | nil => rfl
  | cons first rest =>
      have last := charAt_length (first :: rest)
      simp only [List.length_cons] at last ⊢
      simp [trimEnd, last, isBlank]

/-- The first loop stops behind the leading blanks. -/
theorem trimStart_spec
    (str : Text)
    (start fuel : Nat)
    (enough : str.length - start < fuel)
    (inside : start ≤ str.length) :
    trimStart str str.length fuel start =
      start + ((str.drop start).takeWhile isBlank).length := by
  induction fuel generalizing start with
  | zero => omega
  | succ fuel inductionHypothesis =>
      by_cases atEnd : start = str.length
      · subst start
        simp [trimStart, charAt_length, isBlank]
      · have before : start < str.length := by omega
        have headOfDrop : str.drop start = str.get ⟨start, before⟩ :: str.drop (start + 1) :=
          List.drop_eq_getElem_cons before
        have current : charAt str start = str.get ⟨start, before⟩ := by
          simp [charAt, before]
        rw [trimStart, current, headOfDrop, List.takeWhile_cons]
        cases blank : isBlank (str.get ⟨start, before⟩) with
        | true =>
            rw [inductionHypothesis (start + 1) (by omega) (by omega)]
            simp only [decide_eq_true_eq.mpr inside, Bool.and_self, if_true,
              List.length_cons]
            omega
        | false => simp only [Bool.false_and, Bool.false_eq_true, if_false,
            List.length_nil, Nat.add_zero]

/-- Behind the leading blanks. -/
theorem drop_leadingBlanks (str : Text) :
    str.drop (str.takeWhile isBlank).length = str.dropWhile isBlank := by
  have whole : (str.takeWhile isBlank ++ str.dropWhile isBlank).drop
      (str.takeWhile isBlank).length = str.dropWhile isBlank := List.drop_left
  rwa [List.takeWhile_append_dropWhile] at whole

theorem length_leadingBlanks (str : Text) :
    (str.takeWhile isBlank).length + (str.dropWhile isBlank).length = str.length := by
  rw [← List.length_append, List.takeWhile_append_dropWhile]

/-- The end loop of `trim` reads the terminating zero first and never moves, so
only leading blanks are removed. -/
theorem trim_eq_dropWhile (str : Text) : trim str = str.dropWhile isBlank := by
  have start := trimStart_spec str 0 (str.length + 2) (by omega) (by omega)
  simp only [Nat.zero_add, List.drop_zero] at start
  have total := length_leadingBlanks str
  simp only [trim, start, trimEnd_length, drop_leadingBlanks]
  split_ifs with empty
  · symm
    apply List.eq_nil_of_length_eq_zero
    omega
  · apply List.take_of_length_le
    omega

/-- A text with a visible character does not trim to nothing. -/
theorem trim_ne_nil_of_mem
    {str : Text}
    {character : Char}
    (member : character ∈ str)
    (visible : isBlank character = false) :
    trim str ≠ [] := by
  rw [trim_eq_dropWhile]
  intro empty
  rw [List.dropWhile_eq_nil_iff] at empty
  rw [empty character member] at visible
  exact Bool.noConfusion visible

/-- Identifiers are visible. -/
theorem exists_visible_of_isIdent
    {name : Text}
    (identifier : isIdent name = true) :
    ∃ character ∈ name, isBlank character = false := by
  obtain ⟨first, rest, rfl, start⟩ := exists_identStart_mem identifier
  refine ⟨first, List.mem_cons_self .., ?_⟩
  rw [Bool.eq_false_iff]
  intro blank
  simp only [isBlank, Bool.or_eq_true, beq_iff_eq] at blank
  rcases blank with (rfl | rfl) | rfl <;> exact absurd start (by decide)

/-! ## `c_explode` and `split` -/

/-- The loop of `c_explode`. `passed` is the part of `subj` before the index
`i`; a match at `i` restarts on the rest of the string with `i = 1`. The last
position is never examined. -/
def cExplodeLoop (quan : Char) : Text → Text → List Text
  | passed, current :: next :: rest =>
      if current = quan then passed :: cExplodeLoop quan [next] rest
      else cExplodeLoop quan (passed ++ [current]) (next :: rest)
  | passed, [current] =>
      if (trim (passed ++ [current])).length > 0 then [passed ++ [current]] else []
  | passed, [] => if (trim passed).length > 0 then [passed] else []

/-- `c_explode`. On the empty string the unsigned loop bound wraps around and
`subj.at(0)` throws. -/
def cExplode (quan : Char) (subject : Text) : Option (List Text) :=
  if subject = [] then none else some (cExplodeLoop quan [] subject)

/-- Fields joined by a delimiter. -/
def joinWith (quan : Char) : List Text → Text
  | [] => []
  | [field] => field
  | field :: next :: rest => field ++ quan :: joinWith quan (next :: rest)

/-- The loop passes over a delimiter-free part. -/
theorem cExplodeLoop_append
    {quan : Char}
    (passed : Text)
    {field : Text}
    (free : quan ∉ field)
    (rest : Text) :
    cExplodeLoop quan passed (field ++ rest) = cExplodeLoop quan (passed ++ field) rest := by
  induction field generalizing passed with
  | nil => simp
  | cons current field inductionHypothesis =>
      simp only [List.mem_cons, not_or] at free
      have different : current ≠ quan := fun equal => free.1 equal.symm
      have later := inductionHypothesis (passed ++ [current]) free.2
      rw [List.append_assoc, List.singleton_append] at later
      rw [← later, List.cons_append]
      -- behind the last character the loop stops either way
      cases field ++ rest with
      | nil => simp [cExplodeLoop]
      | cons next more => rw [cExplodeLoop, if_neg different]

/-- The loop cuts at a delimiter in front of another character. -/
theorem cExplodeLoop_field
    (quan next : Char)
    (passed field rest : Text)
    (free : quan ∉ field) :
    cExplodeLoop quan passed (field ++ quan :: next :: rest) =
      (passed ++ field) :: cExplodeLoop quan [next] rest := by
  rw [cExplodeLoop_append passed free, cExplodeLoop, if_pos rfl]

/-- On a delimiter-free remainder the loop keeps the remainder whole. -/
theorem cExplodeLoop_last
    (quan : Char)
    (passed field : Text)
    (free : quan ∉ field) :
    cExplodeLoop quan passed field =
      if (trim (passed ++ field)).length > 0 then [passed ++ field] else [] := by
  have stepped := cExplodeLoop_append passed free []
  rwa [List.append_nil, cExplodeLoop] at stepped

/-- The fields of a delimiter-separated text: nonempty, free of the delimiter,
and not blank in the last place. -/
structure Fields (quan : Char) (fields : List Text) : Prop where
  nonempty : ∀ field ∈ fields, field ≠ []
  free : ∀ field ∈ fields, quan ∉ field
  visible : ∀ last ∈ fields.getLast?, ∃ character ∈ last, isBlank character = false

theorem Fields.tail
    {quan : Char}
    {field next : Text}
    {rest : List Text}
    (fields : Fields quan (field :: next :: rest)) :
    Fields quan (next :: rest) where
  nonempty := fun other member => fields.nonempty other (List.mem_cons_of_mem _ member)
  free := fun other member => fields.free other (List.mem_cons_of_mem _ member)
  visible := by
    intro last member
    exact fields.visible last (by simpa using member)

theorem joinWith_ne_nil
    (quan : Char)
    {field : Text}
    (rest : List Text)
    (nonempty : field ≠ []) :
    joinWith quan (field :: rest) ≠ [] := by
  cases rest with
  | nil => simpa [joinWith] using nonempty
  | cons next rest => simp [joinWith]

/-- Started inside the first field, the loop returns the fields. -/
theorem cExplodeLoop_join
    (quan : Char)
    (passed first : Text)
    (rest : List Text)
    (fields : Fields quan ((passed ++ first) :: rest)) :
    cExplodeLoop quan passed (joinWith quan (first :: rest)) =
      (passed ++ first) :: rest := by
  induction rest generalizing passed first with
  | nil =>
      have free : quan ∉ first := by
        intro member
        exact fields.free (passed ++ first) (by simp) (by simp [member])
      obtain ⟨character, member, visible⟩ := fields.visible (passed ++ first) (by simp)
      have trimmed := trim_ne_nil_of_mem member visible
      rw [joinWith, cExplodeLoop_last quan passed first free,
        if_pos (List.length_pos_iff.mpr trimmed)]
  | cons next rest inductionHypothesis =>
      have free : quan ∉ first := by
        intro member
        exact fields.free (passed ++ first) (by simp) (by simp [member])
      have nextNonempty : next ≠ [] := fields.nonempty next (by simp)
      obtain ⟨head, tail, rfl⟩ := List.exists_cons_of_ne_nil nextNonempty
      have later := inductionHypothesis [head] tail fields.tail
      cases rest with
      | nil =>
          simp only [joinWith] at later ⊢
          rw [cExplodeLoop_field quan head passed first tail free, later]
          rfl
      | cons third rest =>
          simp only [joinWith, List.cons_append] at later ⊢
          rw [cExplodeLoop_field quan head passed first _ free, later]
          rfl

/-- `c_explode` inverts joining nonempty delimiter-free fields. -/
theorem cExplode_join
    (quan : Char)
    (fields : List Text)
    (present : fields ≠ [])
    (wellFormed : Fields quan fields) :
    cExplode quan (joinWith quan fields) = some fields := by
  obtain ⟨first, rest, rfl⟩ := List.exists_cons_of_ne_nil present
  have nonempty := joinWith_ne_nil quan rest (wellFormed.nonempty first (by simp))
  rw [cExplode, if_neg nonempty]
  exact congrArg some (cExplodeLoop_join quan [] first rest wellFormed)

/-- Only the first character of a piece can be the delimiter, apart from the
last piece. -/
theorem cExplodeLoop_pieces
    (quan : Char)
    (passed rest : Text)
    (before : quan ∉ passed.tail)
    (piece : Text)
    (member : piece ∈ (cExplodeLoop quan passed rest).dropLast) :
    quan ∉ piece.tail := by
  fun_induction cExplodeLoop quan passed rest with
  | case1 passed next rest inductionHypothesis =>
      rcases List.mem_cons.mp (List.mem_of_mem_dropLast member) with rfl | _
      · exact before
      · cases pieces : cExplodeLoop quan [next] rest with
        | nil => simp [pieces] at member
        | cons head tail =>
            rw [pieces, List.dropLast_cons_of_ne_nil (by simp)] at member
            rcases List.mem_cons.mp member with rfl | later
            · exact before
            · exact inductionHypothesis (by simp) (by rw [pieces]; exact later)
  | case2 passed current next rest different inductionHypothesis =>
      apply inductionHypothesis _ member
      cases passed with
      | nil => simp
      | cons head tail =>
          have absent : quan ≠ current := fun equal => different equal.symm
          simpa [absent] using before
  | case3 => simp at member
  | case4 => simp at member
  | case5 => simp at member
  | case6 => simp at member

/-- No piece is longer than what was split. -/
theorem length_le_of_mem_cExplodeLoop
    (quan : Char)
    (passed rest : Text)
    (piece : Text)
    (member : piece ∈ cExplodeLoop quan passed rest) :
    piece.length ≤ passed.length + rest.length := by
  fun_induction cExplodeLoop quan passed rest with
  | case1 passed next rest inductionHypothesis =>
      rcases List.mem_cons.mp member with rfl | later
      · exact Nat.le_add_right ..
      · have short := inductionHypothesis later
        simp only [List.length_cons, List.length_nil] at short ⊢
        omega
  | case2 passed current next rest _ inductionHypothesis =>
      have short := inductionHypothesis member
      simp only [List.length_append, List.length_cons, List.length_nil] at short ⊢
      omega
  | case3 passed current => simp_all
  | case4 => simp at member
  | case5 passed => simp_all
  | case6 => simp at member

/-- Where the last character is visible, something is returned. -/
theorem cExplodeLoop_ne_nil
    (quan : Char)
    (passed rest : Text)
    (visible : ∃ last ∈ (passed ++ rest).getLast?, isBlank last = false) :
    cExplodeLoop quan passed rest ≠ [] := by
  have whole (text : Text) (last : ∃ last ∈ text.getLast?, isBlank last = false) :
      (trim text).length > 0 := by
    obtain ⟨character, isLast, notBlank⟩ := last
    exact List.length_pos_iff.mpr
      (trim_ne_nil_of_mem (List.mem_of_getLast? isLast) notBlank)
  fun_induction cExplodeLoop quan passed rest with
  | case1 => exact List.cons_ne_nil _ _
  | case2 passed current next rest _ inductionHypothesis =>
      apply inductionHypothesis
      simpa using visible
  | case3 => exact List.cons_ne_nil _ _
  | case4 passed current empty => exact absurd (whole _ visible) empty
  | case5 => exact List.cons_ne_nil _ _
  | case6 passed empty =>
      rw [List.append_nil] at visible
      exact absurd (whole _ visible) empty

/-- A delimiter that is not the last character cuts: the first piece ends in
front of it, and another piece follows. -/
theorem cExplodeLoop_cut
    {quan : Char}
    (passed : Text)
    {rest : Text}
    (inside : quan ∈ rest.dropLast)
    (visible : ∃ last ∈ rest.getLast?, isBlank last = false) :
    ∃ before piece pieces, cExplodeLoop quan passed rest = (passed ++ before) :: piece :: pieces ∧
      before.length < rest.length ∧ piece.length < rest.length := by
  obtain ⟨before, after, shape, absent⟩ := List.eq_append_cons_of_mem inside
  obtain ⟨last, isLast, notBlank⟩ := visible
  have whole : rest = before ++ quan :: (after ++ [last]) := by
    have split := List.dropLast_append_getLast? last isLast
    rw [shape] at split
    simpa using split.symm
  obtain ⟨next, more, begins⟩ : ∃ next more, after ++ [last] = next :: more :=
    List.exists_cons_of_ne_nil (by simp)
  rw [begins] at whole
  have ends : ∃ last ∈ ([next] ++ more).getLast?, isBlank last = false := by
    refine ⟨last, ?_, notBlank⟩
    rw [List.singleton_append, ← begins]
    simp
  obtain ⟨piece, pieces, later⟩ :=
    List.exists_cons_of_ne_nil (cExplodeLoop_ne_nil quan [next] more ends)
  have short := length_le_of_mem_cExplodeLoop quan [next] more piece (by simp [later])
  have exploded := cExplodeLoop_field quan next passed before more absent
  rw [← whole, later] at exploded
  have length := congrArg List.length whole
  simp only [List.length_append, List.length_cons, List.length_nil] at length short
  exact ⟨before, piece, pieces, exploded, by omega, by omega⟩

/-- A delimiter in the last place does not cut. -/
theorem cExplodeLoop_whole
    {quan : Char}
    (passed : Text)
    {rest : Text}
    (free : quan ∉ rest.dropLast)
    (visible : ∃ character ∈ passed ++ rest, isBlank character = false) :
    cExplodeLoop quan passed rest = [passed ++ rest] := by
  obtain ⟨character, member, notBlank⟩ := visible
  have shown := List.length_pos_iff.mpr (trim_ne_nil_of_mem member notBlank)
  fun_induction cExplodeLoop quan passed rest with
  | case1 passed next rest => simp at free
  | case2 passed current next rest _ inductionHypothesis =>
      rw [List.dropLast_cons_of_ne_nil (by simp), List.mem_cons, not_or] at free
      have later := inductionHypothesis free.2
      simp only [List.append_assoc, List.singleton_append] at later
      exact later member shown
  | case3 => rfl
  | case4 passed current empty => exact absurd shown empty
  | case5 => simp
  | case6 passed empty =>
      rw [List.append_nil] at shown
      exact absurd shown empty

/-- `split` at the first delimiter; the delimiter is present. -/
def split (quan : Char) (subject : Text) : Text × Text :=
  (subject.takeWhile (· ≠ quan), (subject.dropWhile (· ≠ quan)).drop 1)

theorem forall_ne_of_notMem
    {quan : Char}
    {field : Text}
    (free : quan ∉ field) :
    ∀ character ∈ field, decide (character ≠ quan) = true := by
  intro character member
  rw [decide_eq_true_eq]
  rintro rfl
  exact free member

theorem split_append
    {quan : Char}
    {field : Text}
    (free : quan ∉ field)
    (rest : Text) :
    split quan (field ++ quan :: rest) = (field, rest) := by
  rw [split, List.takeWhile_append_of_pos (forall_ne_of_notMem free),
    List.dropWhile_append_of_pos (forall_ne_of_notMem free)]
  simp

/-! ## Searching -/

/-- `strpos_m`: first position at which one of the strings begins. -/
def strposM (comps : List Text) : Text → Option Nat
  | [] => none
  | current :: rest =>
      if comps.any (·.isPrefixOf (current :: rest)) then some 0
      else (strposM comps rest).map (· + 1)

/-- `count`: occurrences of a string, `-1` when it cannot occur. -/
def count (haystack needle : Text) : Int :=
  if haystack.length = 0 ∨ needle.length > haystack.length then -1
  else ((List.range (haystack.length - needle.length + 1)).filter fun index =>
    needle.isPrefixOf (haystack.drop index)).length

theorem count_singleton_pos
    (haystack : Text)
    (character : Char) :
    0 < count haystack [character] ↔ character ∈ haystack := by
  rw [count]
  split_ifs with short
  · have empty : haystack = [] := by
      apply List.eq_nil_of_length_eq_zero
      simp only [List.length_singleton] at short
      omega
    simp [empty]
  · rw [Int.natCast_pos, List.length_filter_pos_iff]
    constructor
    · rintro ⟨index, _, found⟩
      rw [List.isPrefixOf_iff_prefix] at found
      exact List.mem_of_mem_drop (found.subset (by simp))
    · intro member
      obtain ⟨index, inside, rfl⟩ := List.mem_iff_getElem.mp member
      refine ⟨index, by simp only [List.mem_range, List.length_singleton]; omega, ?_⟩
      rw [List.isPrefixOf_iff_prefix, List.drop_eq_getElem_cons inside]
      exact ⟨_, rfl⟩

/-- An occurrence in the first part of a text is the first one in the whole. -/
theorem strposM_singleton_append
    {part text : Text}
    {index : Nat}
    (found : strposM [part] text = some index)
    (rest : Text) :
    strposM [part] (text ++ rest) = some index ∧ index + part.length ≤ text.length := by
  induction text generalizing index with
  | nil => cases found
  | cons character text inductionHypothesis =>
      rw [strposM, List.any_cons, List.any_nil, Bool.or_false] at found
      rw [List.cons_append, strposM, List.any_cons, List.any_nil, Bool.or_false]
      simp only [List.isPrefixOf_iff_prefix] at found ⊢
      by_cases here : part <+: character :: text
      · have longer : part <+: character :: (text ++ rest) :=
          here.trans (List.prefix_append (character :: text) rest)
        rw [if_pos here] at found
        cases found
        rw [if_pos longer, Nat.zero_add]
        exact ⟨rfl, here.length_le⟩
      · rw [if_neg here] at found
        obtain ⟨later, foundLater, rfl⟩ := Option.map_eq_some_iff.mp found
        obtain ⟨foundWhole, inside⟩ := inductionHypothesis foundLater
        have notHere : ¬part <+: character :: (text ++ rest) := by
          intro longer
          refine here (List.prefix_of_prefix_length_le longer
            (List.prefix_append (character :: text) rest) ?_)
          rw [List.length_cons]
          omega
        rw [if_neg notHere, foundWhole, List.length_cons]
        exact ⟨rfl, by omega⟩

/-! ## `str_replace` -/

/-- `subject.find(search)`. -/
def find (subject search : Text) : Option Nat := strposM [search] subject

/-- The recursion of `str_replace`: each call rewrites the first occurrence and
starts over. -/
def strReplaceLoop (search replace : Text) : Nat → Text → Option Text
  | 0, _ => none
  | fuel + 1, subject =>
      match find subject search with
      | none => some subject
      | some start =>
          strReplaceLoop search replace fuel
            (subject.take start ++ replace ++ subject.drop (start + search.length))

/-- `str_replace`. -/
def strReplace (search replace subject : Text) : Option Text :=
  strReplaceLoop search replace (subject.length + 1) subject

/-! ## Numerals -/

/-- `itoa`; the recursion ends on every `int` except the smallest, whose
negation is itself. -/
def itoa (i : Int) : Text :=
  if i < 0 then '-' :: numeral i.natAbs else numeral i.natAbs

@[simp] theorem itoa_natCast (i : Nat) : itoa (i : Int) = numeral i := by
  simp [itoa]

/-- An optional sign and the longest digit sequence behind it. -/
def readSigned : Text → Option Int
  | '-' :: rest =>
      let digits := rest.takeWhile Char.isDigit
      if digits = [] then none else some (-(ofNumeral digits : Int))
  | '+' :: rest =>
      let digits := rest.takeWhile Char.isDigit
      if digits = [] then none else some (ofNumeral digits)
  | text =>
      let digits := text.takeWhile Char.isDigit
      if digits = [] then none else some (ofNumeral digits)

/-- `stoi`: throws without digits and outside the range of `int`. -/
def stoi (text : Text) : Option Int :=
  (readSigned (text.dropWhile Char.isWhitespace)).filter fun value =>
    decide (-2 ^ 31 ≤ value) && decide (value < 2 ^ 31)

/-- `atoi`: zero without digits. -/
def atoi (text : Text) : Int :=
  Int.bmod ((readSigned (text.dropWhile Char.isWhitespace)).getD 0) (2 ^ 32)

/-- The digits end where the numeral does. -/
theorem readSigned_numeral_append
    (value : Nat)
    {rest : Text}
    (ends : ∀ next ∈ rest.head?, next.isDigit = false) :
    readSigned (numeral value ++ rest) = some (value : Int) := by
  have nonempty := numeral_ne_nil value
  have digits : ∀ character ∈ numeral value, character.isDigit = true :=
    fun _ member => isDigit_of_mem_numeral member
  have whole : (numeral value ++ rest).takeWhile Char.isDigit = numeral value := by
    rw [List.takeWhile_append_of_pos digits]
    cases rest with
    | nil => simp
    | cons next rest => simp [ends next rfl]
  obtain ⟨first, tail, shape⟩ := List.exists_cons_of_ne_nil nonempty
  have firstDigit : first.isDigit = true := digits first (by simp [shape])
  have general : readSigned (first :: (tail ++ rest)) =
      if (first :: (tail ++ rest)).takeWhile Char.isDigit = [] then none
      else some (ofNumeral ((first :: (tail ++ rest)).takeWhile Char.isDigit) : Int) := by
    rw [readSigned]
    · rintro _ ⟨⟩
      exact absurd firstDigit (by decide)
    · rintro _ ⟨⟩
      exact absurd firstDigit (by decide)
  rw [shape, List.cons_append] at whole ⊢
  rw [shape] at nonempty
  rw [general, whole, if_neg nonempty, ← shape, ofNumeral_numeral]

theorem readSigned_numeral (value : Nat) :
    readSigned (numeral value) = some (value : Int) := by
  have read := readSigned_numeral_append value (show ∀ next ∈ ([] : Text).head?, _ from by simp)
  rwa [List.append_nil] at read

/-- Skipping characters that are no digits stops at a numeral. -/
theorem dropWhile_numeral_append
    {skipped : Char → Bool}
    (noDigit : ∀ character, character.isDigit = true → skipped character = false)
    (value : Nat)
    (rest : Text) :
    (numeral value ++ rest).dropWhile skipped = numeral value ++ rest := by
  obtain ⟨first, tail, shape⟩ := List.exists_cons_of_ne_nil (numeral_ne_nil value)
  have member : first ∈ numeral value := by simp [shape]
  rw [shape, List.cons_append, List.dropWhile_cons,
    noDigit first (isDigit_of_mem_numeral member)]
  rfl

theorem isWhitespace_eq_false_of_isDigit
    (character : Char)
    (digit : character.isDigit = true) :
    character.isWhitespace = false := by
  rw [Bool.eq_false_iff]
  intro space
  simp only [Char.isWhitespace, Bool.or_eq_true, decide_eq_true_eq] at space
  rcases space with ((rfl | rfl) | rfl) | rfl <;> exact absurd digit (by decide)

theorem isBlank_eq_false_of_isDigit
    (character : Char)
    (digit : character.isDigit = true) :
    isBlank character = false := by
  rw [Bool.eq_false_iff]
  intro blank
  simp only [isBlank, Bool.or_eq_true, beq_iff_eq] at blank
  rcases blank with (rfl | rfl) | rfl <;> exact absurd digit (by decide)

theorem dropWhile_isWhitespace_numeral (value : Nat) :
    (numeral value).dropWhile Char.isWhitespace = numeral value := by
  have kept := dropWhile_numeral_append isWhitespace_eq_false_of_isDigit value []
  rwa [List.append_nil] at kept

/-- `stoi` reads an `int` numeral back. -/
theorem stoi_numeral
    {value : Nat}
    (fits : value < 2 ^ 31) :
    stoi (numeral value) = some (value : Int) := by
  have lower : -2 ^ 31 ≤ (value : Int) := by omega
  have upper : (value : Int) < 2 ^ 31 := by omega
  rw [stoi, dropWhile_isWhitespace_numeral, readSigned_numeral, Option.filter_some,
    decide_eq_true lower, decide_eq_true upper]
  rfl

/-- `atoi` reads an `int` numeral back, whatever follows it. -/
theorem atoi_numeral_append
    {value : Nat}
    (fits : value < 2 ^ 31)
    {rest : Text}
    (ends : ∀ next ∈ rest.head?, next.isDigit = false) :
    atoi (numeral value ++ rest) = (value : Int) := by
  rw [atoi, dropWhile_numeral_append isWhitespace_eq_false_of_isDigit,
    readSigned_numeral_append value ends, Option.getD_some, Int.bmod_eq_of_le]
  · omega
  · omega

theorem atoi_numeral
    {value : Nat}
    (fits : value < 2 ^ 31) :
    atoi (numeral value) = (value : Int) := by
  have read := atoi_numeral_append fits (show ∀ next ∈ ([] : Text).head?, _ from by simp)
  rwa [List.append_nil] at read

/-! ## Numerals of integers -/

theorem itoa_of_nonneg
    {i : Int}
    (nonneg : 0 ≤ i) :
    itoa i = numeral i.natAbs := by
  rw [itoa, if_neg (by omega)]

theorem itoa_of_neg
    {i : Int}
    (negative : i < 0) :
    itoa i = '-' :: numeral i.natAbs := by
  rw [itoa, if_pos negative]

theorem itoa_ne_nil (i : Int) : itoa i ≠ [] := by
  unfold itoa
  split_ifs
  · exact List.cons_ne_nil _ _
  · exact numeral_ne_nil _

/-- A numeral is made of digits and a sign. -/
theorem notMem_itoa
    {character : Char}
    (noDigit : character.isDigit = false)
    (noSign : character ≠ '-')
    (i : Int) :
    character ∉ itoa i := by
  have absent : character ∉ numeral i.natAbs := by
    intro member
    rw [isDigit_of_mem_numeral member] at noDigit
    exact Bool.noConfusion noDigit
  unfold itoa
  split_ifs
  · exact List.not_mem_cons_of_ne_of_not_mem noSign absent
  · exact absent

/-- Different integers have different numerals. -/
theorem itoa_injective : Function.Injective itoa := by
  have notSign (value : Nat) (rest : Text) : numeral value ≠ '-' :: rest := by
    intro equal
    have member : '-' ∈ numeral value := by
      rw [equal]
      exact List.mem_cons_self ..
    exact absurd (isDigit_of_mem_numeral member) (by decide)
  intro left right equal
  rcases lt_or_ge left 0 with leftNeg | leftNonneg <;>
    rcases lt_or_ge right 0 with rightNeg | rightNonneg
  · rw [itoa_of_neg leftNeg, itoa_of_neg rightNeg] at equal
    have same := numeral_injective (List.cons.inj equal).2
    omega
  · rw [itoa_of_neg leftNeg, itoa_of_nonneg rightNonneg] at equal
    exact absurd equal.symm (notSign _ _)
  · rw [itoa_of_nonneg leftNonneg, itoa_of_neg rightNeg] at equal
    exact absurd equal (notSign _ _)
  · rw [itoa_of_nonneg leftNonneg, itoa_of_nonneg rightNonneg] at equal
    have same := numeral_injective equal
    omega

/-- A numeral is read back. -/
theorem readSigned_itoa (i : Int) : readSigned (itoa i) = some i := by
  rcases lt_or_ge i 0 with negative | nonneg
  · have digits : (numeral i.natAbs).takeWhile Char.isDigit = numeral i.natAbs :=
      List.takeWhile_eq_self_iff.mpr fun _ member => isDigit_of_mem_numeral member
    rw [itoa_of_neg negative, readSigned, digits, if_neg (numeral_ne_nil _), ofNumeral_numeral]
    congr 1
    omega
  · rw [itoa_of_nonneg nonneg, readSigned_numeral]
    congr 1
    omega

theorem dropWhile_isWhitespace_itoa (i : Int) :
    (itoa i).dropWhile Char.isWhitespace = itoa i := by
  unfold itoa
  split_ifs
  · rfl
  · exact dropWhile_isWhitespace_numeral _

/-- `atoi` reads back what `itoa` writes. -/
theorem atoi_itoa
    {i : Int}
    (lower : -2 ^ 31 ≤ i)
    (upper : i < 2 ^ 31) :
    atoi (itoa i) = i := by
  rw [atoi, dropWhile_isWhitespace_itoa, readSigned_itoa, Option.getD_some, Int.bmod_eq_of_le]
  · omega
  · omega

end MfQuery
