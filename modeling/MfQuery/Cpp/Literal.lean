import MfQuery.Lib.Text

/-!
# String literals of a source file

Before a source file is cut into tokens, its trigraphs are replaced and lines
that end in a backslash are joined. A string literal ends at the first quote
that no backslash precedes; its escape sequences are then decoded. What a
literal denotes is a sequence of bytes.

Decoding never makes a literal longer, and an escape sequence or a trigraph
makes it shorter. A literal that denotes its own text has neither.
-/

namespace MfQuery
namespace Cpp

open Text

/-! ## Trigraphs and joined lines -/

/-- The character a trigraph with this third character stands for. -/
def trigraph : Char → Option Char
  | '=' => some '#'
  | '/' => some '\\'
  | '\'' => some '^'
  | '(' => some '['
  | ')' => some ']'
  | '!' => some '|'
  | '<' => some '\x7b'
  | '>' => some '\x7d'
  | '-' => some '~'
  | _ => none

/-- Translation phase 1. -/
def replaceTrigraphs : Text → Text
  | '?' :: '?' :: third :: rest =>
      match trigraph third with
      | some character => character :: replaceTrigraphs rest
      | none => '?' :: replaceTrigraphs ('?' :: third :: rest)
  | character :: rest => character :: replaceTrigraphs rest
  | [] => []

/-- Translation phase 2. -/
def joinLines : Text → Text
  | '\\' :: '\n' :: rest => joinLines rest
  | character :: rest => character :: joinLines rest
  | [] => []

/-- A source file as it is cut into tokens. -/
def translated (source : Text) : Text := joinLines (replaceTrigraphs source)

/-- Some trigraph occurs in the text. -/
def HasTrigraph (text : Text) : Prop :=
  ∃ third, (trigraph third).isSome = true ∧ ['?', '?', third] <:+: text

/-! ## Literals -/

/-- The bytes of a text. -/
def bytes (text : Text) : List UInt8 := text.flatMap String.utf8EncodeChar

/-- The text of a literal behind its opening quote, and what follows its
closing one. -/
def literalBody : Text → Option (Text × Text)
  | [] => none
  | '"' :: rest => some ([], rest)
  | '\n' :: _ => none
  | '\\' :: escaped :: rest =>
      if escaped = '\n' then none
      else (literalBody rest).map fun (body, rest) => ('\\' :: escaped :: body, rest)
  | character :: rest => (literalBody rest).map fun (body, rest) => (character :: body, rest)

/-- Value of a hexadecimal digit. -/
def hexDigit (character : Char) : Option Nat :=
  if character.isDigit then some (character.toNat - 48)
  else if 'a' ≤ character ∧ character ≤ 'f' then some (character.toNat - 87)
  else if 'A' ≤ character ∧ character ≤ 'F' then some (character.toNat - 55)
  else none

/-- Value of an octal digit. -/
def octalDigit (character : Char) : Option Nat :=
  if '0' ≤ character ∧ character ≤ '7' then some (character.toNat - 48) else none

/-- What is being read: a finished character, a backslash, or an escape sequence
that more digits may extend. -/
inductive Escape
  | whole (bytes : List UInt8)
  | backslash
  | octal (value digits : Nat)
  | hex (value : Option Nat)
  | name (value missing : Nat)
  deriving DecidableEq, Repr

/-- The character behind a backslash. Unknown escape sequences denote their
character. -/
def escapedCharacter : Char → Char
  | 'a' => '\x07'
  | 'b' => '\x08'
  | 'f' => '\x0c'
  | 'n' => '\n'
  | 'r' => '\r'
  | 't' => '\t'
  | 'v' => '\x0b'
  | character => character

namespace Escape

/-- A character of the literal that extends what is being read. -/
def extend : Escape → Char → Option Escape
  | whole _, _ => none
  | backslash, character =>
      match octalDigit character with
      | some digit => some (octal digit 1)
      | none =>
          if character = 'x' then some (hex none)
          else if character = 'u' then some (name 0 4)
          else if character = 'U' then some (name 0 8)
          else some (whole (String.utf8EncodeChar (escapedCharacter character)))
  | octal value digits, character =>
      if digits < 3 then (octalDigit character).map fun digit => octal (8 * value + digit) (digits + 1)
      else none
  | hex value, character =>
      (hexDigit character).map fun digit => hex (some (16 * value.getD 0 + digit))
  | name _ 0, _ => none
  | name value (missing + 1), character =>
      (hexDigit character).map fun digit => name (16 * value + digit) missing

/-- The bytes of what has been read, when it may end here. -/
def denotes : Escape → Option (List UInt8)
  | whole bytes => some bytes
  | backslash => none
  | octal value _ => some [UInt8.ofNat value]
  | hex value => value.map fun value => [UInt8.ofNat value]
  | name value 0 => if value.isValidChar then some (String.utf8EncodeChar (Char.ofNat value)) else none
  | name _ (_ + 1) => none

/-- Reading starts over at a character. -/
def start (character : Char) : Escape :=
  if character = '\\' then backslash else whole (String.utf8EncodeChar character)

/-- The bytes a literal denotes, from what is being read on. -/
def decode : Escape → Text → Option (List UInt8)
  | current, [] => current.denotes
  | current, character :: rest =>
      match current.extend character with
      | some next => decode next rest
      | none => do
          let front ← current.denotes
          let back ← decode (start character) rest
          return front ++ back

/-- A bound on the bytes of what is being read, by the bytes already read. -/
def weight : Escape → Nat
  | whole bytes => bytes.length
  | backslash => 0
  | octal _ _ => 1
  | hex _ => 1
  | name _ missing => 5 - missing

end Escape

/-- A string literal in front of a text: the bytes it denotes, and the text
behind it. -/
def readLiteral : Text → Option (List UInt8 × Text)
  | '"' :: text => do
      let (body, rest) ← literalBody text
      let denoted ← Escape.decode (.whole []) body
      return (denoted, rest)
  | _ => none

example : readLiteral "\"a\\x41\\101\\n\");".toList =
    some ([97, 65, 65, 10], ");".toList) := by decide

/-! ## Replacing trigraphs -/

theorem replaceTrigraphs_cons
    {character : Char}
    (different : character ≠ '?')
    (rest : Text) :
    replaceTrigraphs (character :: rest) = character :: replaceTrigraphs rest := by
  rw [replaceTrigraphs]
  intro third more isQuestion
  exact absurd isQuestion different

/-- A text without question marks stays as it is. -/
theorem replaceTrigraphs_append_plain
    {text : Text}
    (plain : '?' ∉ text)
    (rest : Text) :
    replaceTrigraphs (text ++ rest) = text ++ replaceTrigraphs rest := by
  induction text with
  | nil => rfl
  | cons character text inductionHypothesis =>
      rw [List.mem_cons, not_or] at plain
      rw [List.cons_append, replaceTrigraphs_cons (Ne.symm plain.1),
        inductionHypothesis plain.2, List.cons_append]

/-- No trigraph reaches over a character that none of them contains. -/
theorem replaceTrigraphs_append
    (text : Text)
    {character : Char}
    (foreign : character ≠ '?' ∧ trigraph character = none)
    (rest : Text) :
    replaceTrigraphs (text ++ character :: rest) =
      replaceTrigraphs text ++ character :: replaceTrigraphs rest := by
  fun_induction replaceTrigraphs text with
  | case1 third text replaced isTrigraph inductionHypothesis =>
      simp only [List.cons_append, replaceTrigraphs, isTrigraph, inductionHypothesis]
  | case2 third text noTrigraph inductionHypothesis =>
      simp only [List.cons_append, replaceTrigraphs, noTrigraph] at inductionHypothesis ⊢
      rw [inductionHypothesis]
  | case3 first text notTrigraph inductionHypothesis =>
      by_cases twoQuestions : first = '?' ∧ text = ['?']
      · obtain ⟨rfl, rfl⟩ := twoQuestions
        have single : replaceTrigraphs ('?' :: character :: rest) =
            '?' :: replaceTrigraphs (character :: rest) := by
          rw [replaceTrigraphs]
          rintro third more - shape
          exact foreign.1 (List.cons.inj shape).1
        simp only [List.cons_append, List.nil_append, replaceTrigraphs, foreign.2, single,
          replaceTrigraphs_cons foreign.1]
      · rw [List.cons_append, replaceTrigraphs, inductionHypothesis, List.cons_append]
        rintro third more rfl shape
        match text, shape with
        | [], shape => exact foreign.1 (List.cons.inj shape).1
        | [second], shape =>
            obtain ⟨rfl, -⟩ := List.cons.inj shape
            exact twoQuestions ⟨rfl, rfl⟩
        | second :: next :: text, shape =>
            obtain ⟨rfl, _⟩ := List.cons.inj shape
            exact notTrigraph _ _ rfl rfl
  | case4 => exact replaceTrigraphs_cons foreign.1 rest

/-- A trigraph begins with the first character, or occurs behind it. -/
theorem hasTrigraph_cons_iff
    {first : Char}
    {text : Text} :
    HasTrigraph (first :: text) ↔
      (∃ third rest, first = '?' ∧ text = '?' :: third :: rest ∧
        (trigraph third).isSome = true) ∨ HasTrigraph text := by
  constructor
  · rintro ⟨third, isTrigraph, inside⟩
    rcases List.infix_cons_iff.mp inside with ⟨rest, shape⟩ | later
    · obtain ⟨rfl, rfl⟩ := List.cons.inj shape
      exact .inl ⟨third, rest, rfl, rfl, isTrigraph⟩
    · exact .inr ⟨third, isTrigraph, later⟩
  · rintro (⟨third, rest, rfl, rfl, isTrigraph⟩ | ⟨third, isTrigraph, later⟩)
    · exact ⟨third, isTrigraph, [], rest, rfl⟩
    · exact ⟨third, isTrigraph, List.infix_cons later⟩

/-- A text without trigraphs stays as it is. -/
theorem replaceTrigraphs_eq
    {text : Text}
    (clear : ¬HasTrigraph text) :
    replaceTrigraphs text = text := by
  fun_induction replaceTrigraphs text with
  | case1 third rest character isTrigraph _ =>
      exact absurd (hasTrigraph_cons_iff.mpr
        (.inl ⟨third, rest, rfl, rfl, by rw [isTrigraph]; rfl⟩)) clear
  | case2 third rest _ inductionHypothesis =>
      rw [inductionHypothesis fun later => clear (hasTrigraph_cons_iff.mpr (.inr later))]
  | case3 first rest _ inductionHypothesis =>
      rw [inductionHypothesis fun later => clear (hasTrigraph_cons_iff.mpr (.inr later))]
  | case4 => rfl

@[simp] theorem bytes_nil : bytes [] = [] := rfl

@[simp] theorem bytes_cons
    (character : Char)
    (text : Text) :
    bytes (character :: text) = String.utf8EncodeChar character ++ bytes text := rfl

@[simp] theorem bytes_append
    (first second : Text) :
    bytes (first ++ second) = bytes first ++ bytes second := by
  simp [bytes]

theorem length_utf8EncodeChar_trigraph
    {third character : Char}
    (isTrigraph : trigraph third = some character) :
    (String.utf8EncodeChar character).length = 1 := by
  unfold trigraph at isTrigraph
  split at isTrigraph <;> cases isTrigraph <;> rfl

/-- Replacing trigraphs makes a text with a trigraph shorter. -/
theorem length_bytes_replaceTrigraphs (text : Text) :
    (bytes (replaceTrigraphs text)).length ≤ (bytes text).length ∧
      (HasTrigraph text → (bytes (replaceTrigraphs text)).length < (bytes text).length) := by
  have question : (String.utf8EncodeChar '?').length = 1 := rfl
  fun_induction replaceTrigraphs text with
  | case1 third rest character isTrigraph inductionHypothesis =>
      have single := length_utf8EncodeChar_trigraph isTrigraph
      have less := inductionHypothesis.1
      simp only [bytes_cons, List.length_append, question, single]
      omega
  | case2 third rest noTrigraph inductionHypothesis =>
      rw [hasTrigraph_cons_iff]
      simp only [bytes_cons, List.length_append, question] at inductionHypothesis ⊢
      refine ⟨by omega, ?_⟩
      rintro (⟨other, more, -, shape, isTrigraph⟩ | later)
      · obtain ⟨rfl, rfl⟩ := List.cons.inj (List.cons.inj shape).2
        rw [noTrigraph] at isTrigraph
        exact Bool.noConfusion isTrigraph
      · have less := inductionHypothesis.2 later
        omega
  | case3 first rest notTrigraph inductionHypothesis =>
      rw [hasTrigraph_cons_iff]
      simp only [bytes_cons, List.length_append]
      refine ⟨by omega, ?_⟩
      rintro (⟨third, more, rfl, rfl, -⟩ | later)
      · exact absurd rfl (notTrigraph third more rfl)
      · have less := inductionHypothesis.2 later
        omega
  | case4 =>
      refine ⟨le_rfl, ?_⟩
      rintro ⟨third, -, inside⟩
      have length := inside.length_le
      simp at length

/-- Replacing trigraphs adds no line end. -/
theorem newline_notMem_replaceTrigraphs
    {text : Text}
    (singleLine : '\n' ∉ text) :
    '\n' ∉ replaceTrigraphs text := by
  fun_induction replaceTrigraphs text with
  | case1 third rest character isTrigraph inductionHypothesis =>
      simp only [List.mem_cons, not_or] at singleLine ⊢
      refine ⟨?_, inductionHypothesis singleLine.2.2.2⟩
      rintro rfl
      unfold trigraph at isTrigraph
      split at isTrigraph <;> exact absurd isTrigraph (by decide)
  | case2 third rest _ inductionHypothesis =>
      rw [List.mem_cons, not_or] at singleLine ⊢
      exact ⟨singleLine.1, inductionHypothesis singleLine.2⟩
  | case3 first rest _ inductionHypothesis =>
      rw [List.mem_cons, not_or] at singleLine ⊢
      exact ⟨singleLine.1, inductionHypothesis singleLine.2⟩
  | case4 => exact singleLine

/-! ## Joining lines -/

/-- A text without backslashes stays as it is. -/
theorem joinLines_append_plain
    {text : Text}
    (plain : '\\' ∉ text)
    (rest : Text) :
    joinLines (text ++ rest) = text ++ joinLines rest := by
  induction text with
  | nil => rfl
  | cons character text inductionHypothesis =>
      rw [List.mem_cons, not_or] at plain
      rw [List.cons_append, joinLines, inductionHypothesis plain.2, List.cons_append]
      exact fun _ isEscape => absurd isEscape.symm plain.1

/-- Inside a line no backslash is removed. -/
theorem joinLines_append
    {text : Text}
    (singleLine : '\n' ∉ text)
    {character : Char}
    (noEnd : character ≠ '\n')
    (rest : Text) :
    joinLines (text ++ character :: rest) = text ++ joinLines (character :: rest) := by
  induction text with
  | nil => rfl
  | cons first text inductionHypothesis =>
      rw [List.mem_cons, not_or] at singleLine
      rw [List.cons_append, joinLines, inductionHypothesis singleLine.2, List.cons_append]
      rintro more rfl shape
      cases text with
      | nil => exact noEnd (List.cons.inj shape).1
      | cons second text =>
          rw [List.mem_cons, not_or] at singleLine
          exact singleLine.2.1 (List.cons.inj shape).1.symm

/-! ## Reading literals -/

/-- A literal is the text up to its closing quote; no line ends in it. -/
theorem literalBody_eq
    {text body rest : Text}
    (read : literalBody text = some (body, rest)) :
    text = body ++ '"' :: rest ∧ '\n' ∉ body := by
  fun_induction literalBody text generalizing body rest with
  | case1 => cases read
  | case2 => cases read; simp
  | case3 => cases read
  | case4 => cases read
  | case5 escaped text notEnd inductionHypothesis =>
      obtain ⟨⟨body, rest⟩, later, shape⟩ := Option.map_eq_some_iff.mp read
      cases shape
      obtain ⟨rfl, free⟩ := inductionHypothesis later
      simp [free, Ne.symm notEnd]
  | case6 character text noQuote noEnd noEscape inductionHypothesis =>
      obtain ⟨⟨body, rest⟩, later, shape⟩ := Option.map_eq_some_iff.mp read
      cases shape
      obtain ⟨rfl, free⟩ := inductionHypothesis later
      simp [free, Ne.symm noEnd]

/-- Without backslashes the body has no quote. -/
theorem quote_notMem_literalBody
    {text body rest : Text}
    (read : literalBody text = some (body, rest))
    (plain : '\\' ∉ body) :
    '"' ∉ body := by
  fun_induction literalBody text generalizing body rest with
  | case1 => cases read
  | case2 => cases read; simp
  | case3 => cases read
  | case4 => cases read
  | case5 escaped text notEnd inductionHypothesis =>
      obtain ⟨⟨body, rest⟩, later, shape⟩ := Option.map_eq_some_iff.mp read
      cases shape
      simp at plain
  | case6 character text noQuote noEnd noEscape inductionHypothesis =>
      obtain ⟨⟨body, rest⟩, later, shape⟩ := Option.map_eq_some_iff.mp read
      cases shape
      rw [List.mem_cons, not_or] at plain ⊢
      exact ⟨Ne.symm noQuote, inductionHypothesis later plain.2⟩

/-- A text without quotes, backslashes and line ends is read as it stands. -/
theorem literalBody_append
    {text : Text}
    (plain : ∀ character ∈ text, character ≠ '"' ∧ character ≠ '\\' ∧ character ≠ '\n')
    (rest : Text) :
    literalBody (text ++ '"' :: rest) = some (text, rest) := by
  induction text with
  | nil => rfl
  | cons character text inductionHypothesis =>
      rw [List.forall_mem_cons] at plain
      obtain ⟨⟨noQuote, noEscape, noEnd⟩, later⟩ := plain
      rw [List.cons_append, literalBody, inductionHypothesis later]
      · rfl
      · exact fun isQuote => noQuote isQuote
      · exact fun isEnd => noEnd isEnd
      · exact fun _ _ isEscape => absurd isEscape noEscape

namespace Escape

theorem decode_whole
    {text : Text}
    (plain : '\\' ∉ text)
    (front : List UInt8) :
    decode (whole front) text = some (front ++ bytes text) := by
  induction text generalizing front with
  | nil => simp [decode, denotes, bytes]
  | cons character text inductionHypothesis =>
      rw [List.mem_cons, not_or] at plain
      have begins : start character = whole (String.utf8EncodeChar character) := by
        rw [start, if_neg (Ne.symm plain.1)]
      have later := inductionHypothesis plain.2 (String.utf8EncodeChar character)
      simp only [decode, extend, denotes, begins, later]
      simp

/-- What may end here denotes no more bytes than its weight. -/
theorem length_denotes_le
    {current : Escape}
    {out : List UInt8}
    (ends : current.denotes = some out) :
    out.length ≤ current.weight := by
  cases current with
  | whole bytes =>
      cases ends
      exact le_rfl
  | backslash => cases ends
  | octal value digits =>
      cases ends
      exact le_rfl
  | hex value =>
      obtain ⟨value, -, rfl⟩ := Option.map_eq_some_iff.mp ends
      exact le_rfl
  | name value missing =>
      cases missing with
      | zero =>
          rw [denotes, Option.ite_none_right_eq_some, Option.some.injEq] at ends
          obtain ⟨-, rfl⟩ := ends
          rw [String.length_utf8EncodeChar]
          exact (Char.utf8Size_le_four _).trans (Nat.le_succ 4)
      | succ missing => cases ends

theorem length_escapedCharacter_le (character : Char) :
    (String.utf8EncodeChar (escapedCharacter character)).length ≤
      (String.utf8EncodeChar character).length := by
  unfold escapedCharacter
  split <;> exact le_rfl

/-- One more character adds at most its bytes. -/
theorem weight_extend_le
    {current next : Escape}
    {character : Char}
    (extended : current.extend character = some next) :
    next.weight ≤ current.weight + (String.utf8EncodeChar character).length := by
  have positive : 0 < (String.utf8EncodeChar character).length := by
    rw [String.length_utf8EncodeChar]
    exact Char.utf8Size_pos _
  cases current with
  | whole bytes => cases extended
  | backslash =>
      rw [extend] at extended
      cases isDigit : octalDigit character with
      | some digit =>
          rw [isDigit] at extended
          cases extended
          exact Nat.le_add_left_of_le positive
      | none =>
          simp only [isDigit] at extended
          split_ifs at extended <;> cases extended
          · exact Nat.le_add_left_of_le positive
          · exact Nat.le_add_left_of_le positive
          · exact Nat.zero_le _
          · exact Nat.le_add_left_of_le (length_escapedCharacter_le character)
  | octal value digits =>
      simp only [extend, Option.ite_none_right_eq_some] at extended
      obtain ⟨-, digit, -, rfl⟩ := extended.imp_right Option.map_eq_some_iff.mp
      exact Nat.le_add_right ..
  | hex value =>
      obtain ⟨digit, -, rfl⟩ := Option.map_eq_some_iff.mp extended
      exact Nat.le_add_right ..
  | name value missing =>
      cases missing with
      | zero => cases extended
      | succ missing =>
          obtain ⟨digit, -, rfl⟩ := Option.map_eq_some_iff.mp extended
          simp only [weight]
          omega

theorem weight_start_le (character : Char) :
    (start character).weight ≤ (String.utf8EncodeChar character).length := by
  unfold start
  split_ifs
  · exact Nat.zero_le _
  · exact le_rfl

/-- A literal never denotes more bytes than it is written with, and fewer where
it has an escape sequence. -/
theorem length_decode
    {current : Escape}
    {text : Text}
    {out : List UInt8}
    (decoded : decode current text = some out) :
    out.length ≤ current.weight + (bytes text).length ∧
      ∀ front, current = whole front → '\\' ∈ text →
        out.length < front.length + (bytes text).length := by
  induction text generalizing current out with
  | nil =>
      have bound := length_denotes_le decoded
      simpa using bound
  | cons character text inductionHypothesis =>
      rw [bytes_cons, List.length_append]
      cases extended : current.extend character with
      | some next =>
          rw [decode, extended] at decoded
          have grown := weight_extend_le extended
          have bound := (inductionHypothesis decoded).1
          refine ⟨by omega, ?_⟩
          rintro front rfl
          cases extended
      | none =>
          rw [decode, extended] at decoded
          simp only [Option.bind_eq_bind, Option.pure_def, Option.bind_eq_some_iff,
            Option.some.injEq] at decoded
          obtain ⟨front, ends, back, later, rfl⟩ := decoded
          have frontBound := length_denotes_le ends
          have startBound := weight_start_le character
          have ⟨backBound, strict⟩ := inductionHypothesis later
          rw [List.length_append]
          refine ⟨by omega, ?_⟩
          rintro front rfl escapes
          cases ends
          by_cases isEscape : character = '\\'
          · subst character
            have nothing : (start '\\').weight = 0 := rfl
            have single : (String.utf8EncodeChar '\\').length = 1 := rfl
            omega
          · have begins : start character = whole (String.utf8EncodeChar character) := by
              rw [start, if_neg isEscape]
            have inText : '\\' ∈ text := (List.mem_cons.mp escapes).resolve_left (Ne.symm isEscape)
            have less := strict _ begins inText
            omega

end Escape

theorem length_bytes_pos
    (character : Char)
    (text : Text) :
    0 < (bytes (character :: text)).length := by
  rw [bytes_cons, List.length_append, String.length_utf8EncodeChar]
  exact Nat.add_pos_left (Char.utf8Size_pos character) _

/-- The body of a literal ends with the line at the latest. -/
theorem literalBody_begins
    {text ending after body rest : Text}
    (noQuote : '"' ∉ ending)
    (read : literalBody (text ++ '"' :: (ending ++ '\n' :: after)) = some (body, rest)) :
    body <+: text := by
  obtain ⟨shape, singleLine⟩ := literalBody_eq read
  rcases List.append_eq_append_iff.mp shape with ⟨beyond, isBody, later⟩ | ⟨left, isText, -⟩
  · cases beyond with
    | nil =>
        rw [List.append_nil] at isBody
        exact isBody ▸ List.prefix_refl _
    | cons first beyond =>
        exfalso
        have more := (List.cons.inj later).2
        have inBody : '\n' ∉ beyond := by
          intro member
          exact singleLine (isBody ▸ List.mem_append_right _ (List.mem_cons_of_mem _ member))
        rcases List.append_eq_append_iff.mp more with ⟨further, rfl, atEnd⟩ | ⟨further, rfl, atEnd⟩
        · cases further with
          | nil => exact absurd (List.cons.inj atEnd).1 (by decide)
          | cons second further =>
              obtain ⟨rfl, -⟩ := List.cons.inj atEnd
              exact inBody (by simp)
        · cases further with
          | nil => exact absurd (List.cons.inj atEnd).1 (by decide)
          | cons second further =>
              obtain ⟨rfl, -⟩ := List.cons.inj atEnd
              exact noQuote (by simp)
  · exact ⟨left, isText.symm⟩

/-- A literal written with a text denotes at least as many bytes as the text has
only when the text has no quote and no backslash; then it denotes the text. -/
theorem readLiteral_long
    {text ending after rest : Text}
    {denoted : List UInt8}
    (noQuote : '"' ∉ ending)
    (read : readLiteral ('"' :: (text ++ '"' :: (ending ++ '\n' :: after))) =
      some (denoted, rest))
    (long : (bytes text).length ≤ denoted.length) :
    '"' ∉ text ∧ '\\' ∉ text ∧ denoted = bytes text := by
  simp only [readLiteral, Option.bind_eq_bind, Option.pure_def, Option.bind_eq_some_iff,
    Option.some.injEq, Prod.mk.injEq] at read
  obtain ⟨⟨body, behind⟩, isBody, denoted, decoded, rfl, -⟩ := read
  dsimp only at decoded
  obtain ⟨left, rfl⟩ := literalBody_begins noQuote isBody
  have ⟨bound, strict⟩ := Escape.length_decode decoded
  have nothing : (Escape.whole []).weight = 0 := rfl
  rw [bytes_append, List.length_append] at long
  obtain rfl : left = [] := by
    cases left with
    | nil => rfl
    | cons first left =>
        have positive := length_bytes_pos first left
        omega
  rw [List.append_nil]
  have plain : '\\' ∉ body := by
    intro escapes
    have less := strict [] rfl escapes
    rw [List.length_nil] at less
    omega
  refine ⟨quote_notMem_literalBody isBody plain, plain, ?_⟩
  rw [Escape.decode_whole plain, List.nil_append, Option.some.injEq] at decoded
  exact decoded.symm

/-- A text without quotes, backslashes and line ends denotes itself. -/
theorem readLiteral_plain
    {text : Text}
    (plain : ∀ character ∈ text, character ≠ '"' ∧ character ≠ '\\' ∧ character ≠ '\n')
    (rest : Text) :
    readLiteral ('"' :: (text ++ '"' :: rest)) = some (bytes text, rest) := by
  have noEscape : '\\' ∉ text := fun member => (plain _ member).2.1 rfl
  simp only [readLiteral, literalBody_append plain, Escape.decode_whole noEscape,
    Option.bind_eq_bind, Option.bind_some, List.nil_append]
  rfl

end Cpp
end MfQuery
