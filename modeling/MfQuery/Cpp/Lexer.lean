import MfQuery.Lib.Text

/-!
# Lexing C++ expressions

The lexer is a machine that reads one character at a time. Its mode records
the token under construction; a character either extends that token or ends it
and begins the next one (maximal munch). Whitespace and comments only separate
tokens. The alternative spellings `and`, `or`, `xor` and `not` are the operator tokens
`&&`, `||`, `^` and `!`.
-/

namespace MfQuery
namespace Cpp

open Text

/-- Tokens of a C++ expression. -/
inductive Token
  | ident (name : Text)
  | number (digits : Text)
  | string (body : Text)
  | punct (symbol : Text)
  deriving DecidableEq, Repr

/-- Token under construction. -/
inductive Mode
  | start
  | ident (name : Text)
  | number (digits : Text)
  | string (body : Text)
  | escape (body : Text)
  | punct (first : Char)
  | lineComment
  | blockComment
  | blockStar
  deriving DecidableEq, Repr

/-- Operators and digraphs spelled with two characters. -/
def twoCharacterPuncts : List Text :=
  ["->", "==", "!=", "<=", ">=", "&&", "||", "<<", ">>", "++", "--",
    "+=", "-=", "*=", "/=", "%=", "&=", "|=", "^=", "::", ".*", "<%", "%>", "<:", ":>", "%:"]

/-- Pairs of characters that are not read one by one: two-character operators
and the openings of comments. -/
def fusingPairs : List Text := "//" :: "/*" :: twoCharacterPuncts

/-- The token an identifier spelling stands for. -/
def identToken (name : Text) : Token :=
  if name = "and".toList then .punct "&&"
  else if name = "or".toList then .punct "||"
  else if name = "xor".toList then .punct "^"
  else if name = "not".toList then .punct "!"
  else .ident name

/-- The spelling is an identifier and not an alternative operator token. -/
def isName (name : Text) : Bool :=
  isIdent name && decide (identToken name = .ident name)

/-- Simple escape sequences of a string literal. -/
def unescape : Char → Option Char
  | 'n' => some '\n'
  | 't' => some '\t'
  | 'r' => some '\r'
  | '0' => some '\x00'
  | '"' => some '"'
  | '\'' => some '\''
  | '\\' => some '\\'
  | _ => none

/-- Begin a token with a character. -/
def begin (character : Char) : Mode :=
  if character.isWhitespace then .start
  else if identStart character then .ident [character]
  else if character.isDigit then .number [character]
  else if character = '"' then .string []
  else .punct character

/-- Read one character: the tokens it completes and the next mode. -/
def advance : Mode → Char → Option (List Token × Mode)
  | .start, character => some ([], begin character)
  | .ident name, character =>
      if identRest character then some ([], .ident (name ++ [character]))
      else some ([identToken name], begin character)
  | .number digits, character =>
      if identRest character || character == '.' then
        some ([], .number (digits ++ [character]))
      else some ([.number digits], begin character)
  | .string body, character =>
      if character = '"' then some ([.string body], .start)
      else if character = '\\' then some ([], .escape body)
      else if character = '\n' then none
      else some ([], .string (body ++ [character]))
  | .escape body, character =>
      (unescape character).map fun decoded => ([], .string (body ++ [decoded]))
  | .punct first, character =>
      if first = '/' ∧ character = '/' then some ([], .lineComment)
      else if first = '/' ∧ character = '*' then some ([], .blockComment)
      else if [first, character] ∈ twoCharacterPuncts then
        some ([.punct [first, character]], .start)
      else some ([.punct [first]], begin character)
  | .lineComment, character =>
      some ([], if character = '\n' then .start else .lineComment)
  | .blockComment, character =>
      some ([], if character = '*' then .blockStar else .blockComment)
  | .blockStar, character =>
      some ([], if character = '/' then .start
        else if character = '*' then .blockStar else .blockComment)

/-- Read a text: the tokens completed on the way and the final mode. -/
def run : Mode → Text → Option (List Token × Mode)
  | mode, [] => some ([], mode)
  | mode, character :: rest => do
      let (completed, next) ← advance mode character
      let (later, final) ← run next rest
      return (completed ++ later, final)

/-- Tokens completed by the end of the input. -/
def finish : Mode → Option (List Token)
  | .start => some []
  | .ident name => some [identToken name]
  | .number digits => some [.number digits]
  | .punct first => some [.punct [first]]
  | .lineComment => some []
  | .string _ => none
  | .escape _ => none
  | .blockComment => none
  | .blockStar => none

/-- Token sequence of a text, when it has one. -/
def lex (text : Text) : Option (List Token) := do
  let (completed, mode) ← run .start text
  let last ← finish mode
  return completed ++ last

@[simp] theorem run_nil (mode : Mode) : run mode [] = some ([], mode) := rfl

/-- Lexing a concatenation continues in the mode the first part ended in. -/
theorem run_append
    (mode : Mode)
    (first second : Text) :
    run mode (first ++ second) = (do
      let (completed, middle) ← run mode first
      let (later, final) ← run middle second
      return (completed ++ later, final)) := by
  induction first generalizing mode with
  | nil =>
      cases result : run mode second with
      | none => simp [result]
      | some value => simp [result]
  | cons character rest inductionHypothesis =>
      cases stepped : advance mode character with
      | none => simp [run, stepped]
      | some value =>
          obtain ⟨completed, next⟩ := value
          simp only [List.cons_append, run, stepped, inductionHypothesis]
          cases runRest : run next rest with
          | none => simp [runRest]
          | some pair =>
              obtain ⟨later, middle⟩ := pair
              cases runSecond : run middle second with
              | none => simp [runRest, runSecond]
              | some final => simp [runRest, runSecond]

/-- Chaining two successful readings. -/
theorem run_append_of_eq
    {mode middle final : Mode}
    {first second : Text}
    {completed later : List Token}
    (runFirst : run mode first = some (completed, middle))
    (runSecond : run middle second = some (later, final)) :
    run mode (first ++ second) = some (completed ++ later, final) := by
  rw [run_append, runFirst]
  simp [runSecond]

/-! ## Identifiers and numerals -/

theorem run_ident_rest
    (name rest : Text)
    (all : ∀ character ∈ rest, identRest character = true) :
    run (.ident name) rest = some ([], .ident (name ++ rest)) := by
  induction rest generalizing name with
  | nil => simp
  | cons character rest inductionHypothesis =>
      have head := all character (List.mem_cons_self ..)
      have tail := inductionHypothesis (name ++ [character])
        fun other member => all other (List.mem_cons_of_mem _ member)
      simp [run, advance, head, tail]

/-- The identifier under construction is the next token. -/
theorem head_of_run_ident
    {name rest : Text}
    {completed pending : List Token}
    {mode : Mode}
    (ran : run (.ident name) rest = some (completed, mode))
    (finished : finish mode = some pending) :
    ∃ extra more, completed ++ pending = identToken (name ++ extra) :: more := by
  induction rest generalizing name completed with
  | nil =>
      cases ran
      cases finished
      exact ⟨[], [], by simp⟩
  | cons character rest inductionHypothesis =>
      cases inName : identRest character with
      | true =>
          simp only [run, advance, inName, if_true, Option.bind_eq_bind, Option.bind_some,
            List.nil_append] at ran
          obtain ⟨later, ranLater, same⟩ := Option.bind_eq_some_iff.mp ran
          cases same
          obtain ⟨extra, more, shape⟩ := inductionHypothesis ranLater
          refine ⟨character :: extra, more, ?_⟩
          rw [shape, List.append_assoc, List.singleton_append]
      | false =>
          simp only [run, advance, inName, Bool.false_eq_true, if_false, Option.bind_eq_bind,
            Option.bind_some] at ran
          obtain ⟨later, ranLater, same⟩ := Option.bind_eq_some_iff.mp ran
          cases same
          exact ⟨[], later.1 ++ pending, by simp⟩

/-- An identifier is read into one pending token. -/
theorem run_name
    {name : Text}
    (identifier : isIdent name = true) :
    run .start name = some ([], .ident name) := by
  cases name with
  | nil => simp [isIdent] at identifier
  | cons first rest =>
      have allRest : ∀ character ∈ rest, identRest character = true := by
        intro character member
        exact identRest_of_mem identifier (List.mem_cons_of_mem _ member)
      simp only [isIdent, Bool.and_eq_true] at identifier
      have notSpace : first.isWhitespace = false := by
        rw [Bool.eq_false_iff]
        intro space
        simp only [Char.isWhitespace, Bool.or_eq_true, decide_eq_true_eq] at space
        have start := identifier.1
        rcases space with ((equal | equal) | equal) | equal <;>
          · rw [equal] at start
            exact absurd start (by decide)
      have tail := run_ident_rest [first] rest allRest
      simp [run, advance, begin, notSpace, identifier.1, tail]

theorem run_number_rest
    (digits rest : Text)
    (all : ∀ character ∈ rest, character.isDigit = true) :
    run (.number digits) rest = some ([], .number (digits ++ rest)) := by
  induction rest generalizing digits with
  | nil => simp
  | cons character rest inductionHypothesis =>
      have head := all character (List.mem_cons_self ..)
      have tail := inductionHypothesis (digits ++ [character])
        fun other member => all other (List.mem_cons_of_mem _ member)
      simp [run, advance, identRest, Char.isAlphanum, head, tail]

/-- A nonempty digit sequence is read into one pending token. -/
theorem run_digits
    {digits : Text}
    (nonempty : digits ≠ [])
    (all : ∀ character ∈ digits, character.isDigit = true) :
    run .start digits = some ([], .number digits) := by
  cases digits with
  | nil => exact absurd rfl nonempty
  | cons first rest =>
      have head := all first (List.mem_cons_self ..)
      have tail := run_number_rest [first] rest
        fun other member => all other (List.mem_cons_of_mem _ member)
      have notStart := identStart_eq_false_of_isDigit head
      have notSpace : first.isWhitespace = false := by
        rw [Bool.eq_false_iff]
        intro space
        simp only [Char.isWhitespace, Bool.or_eq_true, decide_eq_true_eq] at space
        rcases space with ((equal | equal) | equal) | equal <;>
          · rw [equal] at head
            exact absurd head (by decide)
      simp [run, advance, begin, notSpace, notStart, head, tail]

/-- Characters that stand for themselves inside a string literal. -/
def plainInString (character : Char) : Bool :=
  character != '"' && character != '\\' && character != '\n'

theorem run_string_body
    (body rest : Text)
    (all : ∀ character ∈ rest, plainInString character = true) :
    run (.string body) rest = some ([], .string (body ++ rest)) := by
  induction rest generalizing body with
  | nil => simp
  | cons character rest inductionHypothesis =>
      have head := all character (List.mem_cons_self ..)
      simp only [plainInString, Bool.and_eq_true, bne_iff_ne] at head
      have tail := inductionHypothesis (body ++ [character])
        fun other member => all other (List.mem_cons_of_mem _ member)
      simp [run, advance, head, tail]

/-- A quoted text without quotes, backslashes and newlines is the string
literal of that text. -/
theorem run_quoted
    {body : Text}
    (all : ∀ character ∈ body, plainInString character = true) :
    run .start ('"' :: (body ++ ['"'])) = some ([.string body], .start) := by
  have opening : run .start ['"'] = some ([], .string []) := by decide
  have inner := run_string_body [] body all
  have closing : run (.string body) ['"'] = some ([.string body], .start) := by
    simp [run, advance]
  have whole := run_append_of_eq opening (run_append_of_eq inner closing)
  simpa using whole

/-! ## Comments -/

theorem run_lineComment
    {text : Text}
    (oneLine : '\n' ∉ text) :
    run .lineComment text = some ([], .lineComment) := by
  induction text with
  | nil => rfl
  | cons character text inductionHypothesis =>
      rw [List.mem_cons, not_or] at oneLine
      have notEnd : character ≠ '\n' := fun equal => oneLine.1 equal.symm
      simp [run, advance, notEnd, inductionHypothesis oneLine.2]

/-- A line comment hides the rest of the line. -/
theorem lex_lineComment
    {text : Text}
    (oneLine : '\n' ∉ text) :
    lex ('/' :: '/' :: text) = some [] := by
  have opened : run .start ['/', '/'] = some ([], .lineComment) := by decide
  have whole := run_append_of_eq opened (run_lineComment oneLine)
  simp only [List.cons_append, List.nil_append] at whole
  simp [lex, whole, finish]

/-- Inside a block comment. -/
def Mode.inBlock : Mode → Bool
  | .blockComment | .blockStar => true
  | _ => false

theorem finish_of_inBlock
    {mode : Mode}
    (inBlock : mode.inBlock = true) :
    finish mode = none := by
  cases mode with
  | blockComment | blockStar => rfl
  | start | ident | number | string | escape | punct | lineComment => cases inBlock

/-- Without a slash a block comment is not closed. -/
theorem run_of_inBlock
    {mode : Mode}
    (inBlock : mode.inBlock = true)
    {text : Text}
    (noSlash : '/' ∉ text) :
    ∃ final, run mode text = some ([], final) ∧ final.inBlock = true := by
  induction text generalizing mode with
  | nil => exact ⟨mode, rfl, inBlock⟩
  | cons character text inductionHypothesis =>
      rw [List.mem_cons, not_or] at noSlash
      have notSlash : character ≠ '/' := fun equal => noSlash.1 equal.symm
      have stepped : ∃ next, advance mode character = some ([], next) ∧ next.inBlock = true := by
        cases mode with
        | blockComment =>
            refine ⟨_, rfl, ?_⟩
            split_ifs <;> rfl
        | blockStar =>
            refine ⟨_, rfl, ?_⟩
            rw [if_neg notSlash]
            split_ifs <;> rfl
        | start | ident | number | string | escape | punct | lineComment => cases inBlock
      obtain ⟨next, advanced, nextInBlock⟩ := stepped
      obtain ⟨final, ran, finalInBlock⟩ := inductionHypothesis nextInBlock noSlash.2
      exact ⟨final, by simp [run, advanced, ran], finalInBlock⟩

/-! ## Texts written piece by piece -/

/-- The tokens of a text, and the mode its last token is left in. -/
structure Spells (text : Text) (tokens : List Token) (mode : Mode) : Prop where
  reads : ∃ completed pending, run .start text = some (completed, mode) ∧
    finish mode = some pending ∧ tokens = completed ++ pending

/-- The character ends the pending token and begins the next one. -/
def breaks (mode : Mode) (character : Char) : Prop :=
  advance mode character = (finish mode).map fun pending => (pending, begin character)

namespace Spells

theorem lex_eq
    {text : Text}
    {tokens : List Token}
    {mode : Mode}
    (spells : Spells text tokens mode) :
    lex text = some tokens := by
  obtain ⟨completed, pending, ran, finished, rfl⟩ := spells.reads
  simp [lex, ran, finished]

theorem of_run
    {text : Text}
    {completed pending : List Token}
    {mode : Mode}
    (ran : run .start text = some (completed, mode))
    (finished : finish mode = some pending) :
    Spells text (completed ++ pending) mode :=
  ⟨completed, pending, ran, finished, rfl⟩

/-- A fixed text is spelled as running the machine on it says. -/
theorem of_closed
    {text : Text}
    {tokens : List Token}
    {mode : Mode}
    (computed : ((run .start text).bind fun result =>
      (finish result.2).map fun pending => (result.1 ++ pending, result.2)) =
        some (tokens, mode)) :
    Spells text tokens mode := by
  simp only [Option.bind_eq_some_iff, Option.map_eq_some_iff, Prod.mk.injEq] at computed
  obtain ⟨⟨completed, final⟩, ran, pending, finished, rfl, rfl⟩ := computed
  exact of_run ran finished

theorem append
    {first rest : Text}
    {character : Char}
    {firstTokens secondTokens : List Token}
    {middle mode : Mode}
    (firstSpells : Spells first firstTokens middle)
    (breaksHere : breaks middle character)
    (secondSpells : Spells (character :: rest) secondTokens mode) :
    Spells (first ++ character :: rest) (firstTokens ++ secondTokens) mode := by
  obtain ⟨completed, pending, ran, finished, rfl⟩ := firstSpells.reads
  obtain ⟨later, last, ranLater, finishedLater, rfl⟩ := secondSpells.reads
  unfold breaks at breaksHere
  rw [finished, Option.map_some] at breaksHere
  have fresh : advance .start character = some ([], begin character) := rfl
  simp only [run, fresh, Option.bind_eq_bind, Option.bind_some, List.nil_append,
    Option.pure_def] at ranLater
  have continued : run middle (character :: rest) = some (pending ++ later, mode) := by
    simp only [run, breaksHere, Option.bind_eq_bind, Option.bind_some]
    cases ranRest : run (begin character) rest with
    | none => simp [ranRest] at ranLater
    | some result =>
        simp only [ranRest, Option.bind_some, Option.some.injEq] at ranLater
        obtain ⟨rfl, rfl⟩ := Prod.mk.inj ranLater
        rfl
  have whole := run_append_of_eq ran continued
  refine ⟨⟨completed ++ (pending ++ later), last, whole, finishedLater, ?_⟩⟩
  simp

/-- Behind a complete token any text may follow. -/
theorem append_start
    {first second : Text}
    {firstTokens secondTokens : List Token}
    {mode : Mode}
    (firstSpells : Spells first firstTokens .start)
    (secondSpells : Spells second secondTokens mode) :
    Spells (first ++ second) (firstTokens ++ secondTokens) mode := by
  cases second with
  | cons character rest => exact firstSpells.append rfl secondSpells
  | nil =>
      obtain ⟨completed, pending, ran, finished, rfl⟩ := secondSpells.reads
      cases ran
      cases finished
      simpa using firstSpells

theorem name
    {text : Text}
    (isName : isName text = true) :
    Spells text [.ident text] (.ident text) := by
  simp only [Cpp.isName, Bool.and_eq_true, decide_eq_true_eq] at isName
  refine of_run (run_name isName.1) ?_
  simp [finish, isName.2]

theorem numeral
    (value : Nat) :
    Spells (Text.numeral value) [.number (Text.numeral value)]
      (.number (Text.numeral value)) :=
  of_run (run_digits (numeral_ne_nil value)
    fun _ member => isDigit_of_mem_numeral member) rfl

theorem quoted
    {body : Text}
    (plain : ∀ character ∈ body, plainInString character = true) :
    Spells ('"' :: (body ++ ['"'])) [.string body] .start :=
  of_run (run_quoted plain) rfl

end Spells

theorem breaks_ident
    {character : Char}
    (ends : identRest character = false)
    (name : Text) :
    breaks (.ident name) character := by
  simp [breaks, advance, finish, ends]

theorem breaks_number
    {character : Char}
    (ends : identRest character = false)
    (notPoint : character ≠ '.')
    (digits : Text) :
    breaks (.number digits) character := by
  simp [breaks, advance, finish, ends, notPoint]

theorem breaks_punct
    {first character : Char}
    (apart : [first, character] ∉ fusingPairs) :
    breaks (.punct first) character := by
  have comment : ("//" : Text) = ['/', '/'] ∧ ("/*" : Text) = ['/', '*'] := ⟨rfl, rfl⟩
  simp only [fusingPairs, comment, List.mem_cons, List.cons.injEq, and_true, not_or] at apart
  simp only [breaks, advance, finish, apart, if_false, Option.map_some]

/-- Operators and comments are spelled without characters of names. -/
theorem notMem_fusingPairs
    {character : Char}
    (rest : identRest character = true)
    (first : Char) :
    [first, character] ∉ fusingPairs := by
  intro member
  have symbols : ∀ pair ∈ fusingPairs, pair.getLast?.all (fun last => !identRest last) = true := by
    decide
  have last := symbols _ member
  simp [rest] at last

theorem breaks_punct_of_identRest
    {character : Char}
    (rest : identRest character = true)
    (first : Char) :
    breaks (.punct first) character :=
  breaks_punct (notMem_fusingPairs rest first)

end Cpp
end MfQuery
