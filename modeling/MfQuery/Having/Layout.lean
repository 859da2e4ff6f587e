import MfQuery.Having.Translation
import MfQuery.Retrieval

/-!
# Spaces in HAVING conditions

A condition is laid out by writing its tokens one after the other with spaces
between them. `parse_having` cuts the text at spaces and recognises an
aggregate per piece, so the tokens of the emitted expression can depend on the
spaces. They do not exactly when every average has its group in front of it,
no operator or parenthesis stands directly before an aggregate or behind an
average, and no two symbols fuse when written together.
-/

namespace MfQuery

open Text

/-! ## Tokens -/

/-- Operators and parentheses. -/
inductive HavingSymbol
  | opening
  | closing
  | add
  | sub
  | mul
  | div
  | mod
  | lt
  | gt
  | le
  | ge
  | eq
  | equal
  | ne
  | differ
  deriving DecidableEq, Repr

namespace HavingSymbol

/-- The symbol as written. -/
def text : HavingSymbol → Text
  | opening => "("
  | closing => ")"
  | add => "+"
  | sub => "-"
  | mul => "*"
  | div => "/"
  | mod => "%"
  | lt => "<"
  | gt => ">"
  | le => "<="
  | ge => ">="
  | eq => "="
  | equal => "=="
  | ne => "!="
  | differ => "<>"

/-- Its C++ tokens. -/
def tokens : HavingSymbol → List Cpp.Token
  | differ => [.punct "<", .punct ">"]
  | symbol => [.punct symbol.text]

/-- The last character, where it can begin a longer token. -/
def pending : HavingSymbol → Option Char
  | le | ge | equal | ne => none
  | symbol => symbol.text.getLast?

/-- The mode in which the lexer leaves the symbol. -/
def mode (symbol : HavingSymbol) : Cpp.Mode := symbol.pending.elim .start .punct

theorem spells (symbol : HavingSymbol) : Cpp.Spells symbol.text symbol.tokens symbol.mode := by
  cases symbol <;> exact .of_closed rfl

end HavingSymbol

/-- Tokens of a HAVING condition. -/
inductive HavingToken
  | aggregate (letterCase : LetterCase) (term : AggregateTerm)
  | constant (value : Int)
  | and
  | or
  | symbol (symbol : HavingSymbol)
  deriving DecidableEq, Repr

namespace HavingToken

/-- The token as written. -/
def text : HavingToken → Text
  | aggregate letterCase term => term.text letterCase
  | constant value => integerText value
  | and => "and"
  | or => "or"
  | symbol sign => sign.text

/-- Names and numerals, which need a space between them. -/
def isWord : HavingToken → Bool
  | symbol _ => false
  | _ => true

/-- Aggregates over a column of the table whose name has no underscore. -/
def Valid (columns : List Column) : HavingToken → Prop
  | aggregate letterCase term => (HavingLeaf.aggregate letterCase term).Valid columns
  | _ => True

end HavingToken

/-! ## Layouts -/

/-- A number of spaces. -/
def spaces (count : Nat) : Text := List.replicate count ' '

/-- Between two words there is a space. -/
def Separated (left right : Nat × HavingToken) : Prop :=
  left.2.isWord = true → right.2.isWord = true → 0 < right.1

/-- Tokens with the number of spaces in front of each of them, and the spaces
at the end. -/
structure HavingLayout where
  written : List (Nat × HavingToken)
  trailing : Nat
  separated : written.IsChain Separated

namespace HavingLayout

/-- The text up to the last token. -/
def body (written : List (Nat × HavingToken)) : Text :=
  written.flatMap fun entry => spaces entry.1 ++ entry.2.text

/-- The text of a layout. -/
def text (layout : HavingLayout) : Text := body layout.written ++ spaces layout.trailing

/-- The tokens laid out. -/
def tokens (layout : HavingLayout) : List HavingToken := layout.written.map Prod.snd

end HavingLayout

/-- `parse_having` returns the same C++ tokens on all layouts. -/
def LaidOutAlike (columns : List Column) (tokens : List HavingToken) : Prop :=
  ∃ cpp, ∀ layout : HavingLayout, layout.tokens = tokens →
    ∀ generator : ScanGenerator, generator.columns = columns → generator.having = layout.text →
      ∃ text, generator.parseHaving = some text ∧ Cpp.lex text = some cpp

/-! ## The condition -/

namespace HavingToken

/-- An average. -/
def isAverage : HavingToken → Bool
  | aggregate _ term => decide (term.func = .avg)
  | _ => false

/-- An average without its group. -/
def isPlainAverage : HavingToken → Bool
  | aggregate _ term => decide (term.func = .avg ∧ term.label = none)
  | _ => false

/-- Written without a space, the two tokens are read as with one. -/
def joins : HavingToken → HavingToken → Bool
  | symbol _, aggregate _ _ => false
  | symbol sign, right =>
      sign.pending.all fun last => right.text.head?.all fun first =>
        decide ([last, first] ∉ Cpp.fusingPairs)
  | left, symbol _ => !left.isAverage
  | _, _ => true

end HavingToken

/-! ## Cutting at spaces -/

@[simp] theorem spaces_zero : spaces 0 = [] := rfl

theorem spaces_succ (count : Nat) : spaces (count + 1) = ' ' :: spaces count := rfl

theorem eq_space_of_mem_spaces
    {count : Nat}
    {character : Char}
    (member : character ∈ spaces count) :
    character = ' ' :=
  List.eq_of_mem_replicate member

theorem trim_spaces (count : Nat) : trim (spaces count) = [] := by
  rw [trim_eq_dropWhile, List.dropWhile_eq_nil_iff]
  intro character member
  rw [eq_space_of_mem_spaces member]
  rfl

theorem HavingToken.visible_text
    {columns : List Column}
    (named : NamedColumns columns)
    {token : HavingToken}
    (valid : token.Valid columns) :
    Visible token.text := by
  cases token with
  | aggregate letterCase term =>
      have leafValid : (HavingLeaf.aggregate letterCase term).Valid columns := valid
      exact (HavingLeaf.translates named (leafValid.written named)).1
  | constant value => exact (havingTranslates_integer named value).1
  | and => exact (HavingOp.translates named .and).1
  | or => exact (HavingOp.translates named .or).1
  | symbol sign =>
      have shown : (sign.text.any fun character => !isBlank character) = true := by
        cases sign <;> decide
      simp only [List.any_eq_true, Bool.not_eq_true'] at shown
      exact ⟨by cases sign <;> decide, shown⟩

/-- Tokens written without a space between them. -/
def runText (run : List HavingToken) : Text := run.flatMap HavingToken.text

/-- The two are not both words. -/
def MayTouch (left right : HavingToken) : Prop := left.isWord = true → right.isWord = false

/-- The pieces of a text with these tokens: some are blank, the others consist
of tokens without a space between them. -/
inductive Pieces : List Text → List HavingToken → Prop
  | nil : Pieces [] []
  | blank {pieces : List Text} {tokens : List HavingToken} (count : Nat) :
      Pieces pieces tokens → Pieces (spaces count :: pieces) tokens
  | run {pieces : List Text} {tokens run : List HavingToken} (before after : Nat)
      (present : run ≠ []) (apart : run.IsChain MayTouch) :
      Pieces pieces tokens →
        Pieces ((spaces before ++ runText run ++ spaces after) :: pieces) (run ++ tokens)

theorem Pieces.cons
    {pieces : List Text}
    {tokens run : List HavingToken}
    (apart : run.IsChain MayTouch)
    (before : Nat)
    (later : Pieces pieces tokens) :
    Pieces ((spaces before ++ runText run) :: pieces) (run ++ tokens) := by
  cases run with
  | nil =>
      rw [runText, List.flatMap_nil, List.append_nil]
      exact .blank before later
  | cons first rest =>
      have whole := later.run before 0 (List.cons_ne_nil first rest) apart
      rwa [spaces_zero, List.append_nil] at whole

section Cutting

variable {run : List HavingToken} (visible : ∀ token ∈ run, Visible token.text)
include visible

/-- The last piece is dropped when it is blank. -/
theorem pieces_last
    (apart : run.IsChain MayTouch)
    (before after : Nat) :
    Pieces (cExplodeLoop ' ' (spaces before ++ runText run ++ spaces after) []) run := by
  rw [cExplodeLoop]
  cases run with
  | nil =>
      have blank : spaces before ++ runText [] ++ spaces after = spaces (before + after) := by
        rw [runText, List.flatMap_nil, List.append_nil, spaces, spaces, spaces,
          List.replicate_append_replicate]
      rw [blank, trim_spaces, if_neg (by simp)]
      exact .nil
  | cons first rest =>
      obtain ⟨-, character, member, shown⟩ := visible first (List.mem_cons_self ..)
      have inside : character ∈ spaces before ++ runText (first :: rest) ++ spaces after := by
        simp [runText, member]
      rw [if_pos (List.length_pos_iff.mpr (trim_ne_nil_of_mem inside shown))]
      have whole := Pieces.nil.run before after (List.cons_ne_nil first rest) apart
      rwa [List.append_nil] at whole

end Cutting

/-- A run is extended by the token behind it. -/
theorem isChain_concat
    {run : List HavingToken}
    (apart : run.IsChain MayTouch)
    {token : HavingToken}
    (touches : ∀ last ∈ run.getLast?, MayTouch last token) :
    (run ++ [token]).IsChain MayTouch := by
  rw [List.isChain_append]
  refine ⟨apart, .singleton _, ?_⟩
  intro left isLast right isHead
  cases isHead
  exact touches left isLast

/-- The loop of `c_explode` on a layout, with some tokens passed already. -/
theorem pieces_loop
    (trailing : Nat)
    (written : List (Nat × HavingToken))
    (visible : ∀ entry ∈ written, Visible entry.2.text)
    (separated : written.IsChain Separated)
    (before : Nat)
    (run : List HavingToken)
    (runVisible : ∀ token ∈ run, Visible token.text)
    (apart : run.IsChain MayTouch)
    (next : ∀ last ∈ run.getLast?, ∀ first ∈ written.head?, first.1 = 0 → MayTouch last first.2) :
    Pieces (cExplodeLoop ' ' (spaces before ++ runText run)
      (HavingLayout.body written ++ spaces trailing)) (run ++ written.map Prod.snd) := by
  induction written generalizing before run with
  | nil =>
      rw [HavingLayout.body, List.flatMap_nil, List.nil_append, List.map_nil, List.append_nil]
      induction trailing using Nat.twoStepInduction generalizing before run with
      | zero =>
          have last := pieces_last runVisible apart before 0
          rwa [spaces_zero, List.append_nil] at last
      | one => exact pieces_last runVisible apart before 1
      | more count inductionHypothesis _ =>
          have later := inductionHypothesis 1 [] (by simp) .nil (by simp)
          rw [spaces_succ, spaces_succ, cExplodeLoop, if_pos rfl]
          have whole := Pieces.cons apart before later
          rwa [List.append_nil] at whole
  | cons entry written inductionHypothesis =>
      obtain ⟨count, token⟩ := entry
      have tokenVisible : Visible token.text := visible _ (List.mem_cons_self ..)
      have restVisible : ∀ entry ∈ written, Visible entry.2.text :=
        fun entry member => visible entry (List.mem_cons_of_mem _ member)
      -- the token extends the run passed so far
      have extended : ∀ before run, (∀ token ∈ run, Visible token.text) → run.IsChain MayTouch →
          (∀ last ∈ run.getLast?, MayTouch last token) →
          Pieces (cExplodeLoop ' ' (spaces before ++ runText run)
            (token.text ++ (HavingLayout.body written ++ spaces trailing)))
            (run ++ token :: written.map Prod.snd) := by
        intro before run runVisible apart touches
        have longerVisible : ∀ other ∈ run ++ [token], Visible other.text := by
          intro other member
          rcases List.mem_append.mp member with inside | isToken
          · exact runVisible other inside
          · exact List.mem_singleton.mp isToken ▸ tokenVisible
        have follows : ∀ last ∈ (run ++ [token]).getLast?, ∀ first ∈ written.head?,
            first.1 = 0 → MayTouch last first.2 := by
          intro last isLast first isFirst none leftWord
          rw [List.getLast?_append_of_ne_nil _ (by simp)] at isLast
          cases isLast
          rw [List.isChain_cons] at separated
          by_contra rightWord
          have positive := separated.1 first isFirst leftWord (by simpa using rightWord)
          omega
        have later := inductionHypothesis restVisible separated.tail before (run ++ [token])
          longerVisible (isChain_concat apart touches) follows
        rw [cExplodeLoop_append _ tokenVisible.1]
        rw [runText, List.flatMap_append, ← List.append_assoc] at later
        simpa [runText] using later
      have body : HavingLayout.body ((count, token) :: written) ++ spaces trailing =
          spaces count ++ (token.text ++ (HavingLayout.body written ++ spaces trailing)) := by
        rw [HavingLayout.body, List.flatMap_cons, List.append_assoc, List.append_assoc]
        rfl
      rw [body, List.map_cons]
      replace next : count = 0 → ∀ last ∈ run.getLast?, MayTouch last token :=
        fun none last isLast => next last isLast _ rfl none
      clear body visible separated
      induction count using Nat.twoStepInduction generalizing before run with
      | zero => exact extended before run runVisible apart (next rfl)
      | one =>
          have later := extended 0 [] (by simp) .nil (by simp)
          obtain ⟨free, character, member, -⟩ := tokenVisible
          obtain ⟨first, rest, shape⟩ :=
            List.exists_cons_of_ne_nil (List.ne_nil_of_mem member)
          have firstFree : ' ' ∉ [first] := by
            rw [shape, List.mem_cons, not_or] at free
            simpa using free.1
          have split := cExplodeLoop_append (spaces 0 ++ runText []) firstFree
            (rest ++ (HavingLayout.body written ++ spaces trailing))
          rw [shape, List.cons_append] at later ⊢
          rw [List.singleton_append] at split
          rw [split] at later
          rw [spaces_succ, spaces_zero, List.singleton_append, cExplodeLoop, if_pos rfl]
          exact Pieces.cons apart before later
      | more count inductionHypothesis _ =>
          have later := inductionHypothesis 1 [] (by simp) .nil (by simp)
          rw [spaces_succ, spaces_succ, List.cons_append, List.cons_append, cExplodeLoop,
            if_pos rfl]
          exact Pieces.cons apart before later

/-! ## Runs without an aggregate -/

namespace HavingToken

/-- The C++ tokens of a token. -/
def cpp : HavingToken → List Cpp.Token
  | aggregate letterCase term => (HavingLeaf.aggregate letterCase term).tokens
  | constant value => (HavingLeaf.constant value).tokens
  | and => [.punct "&&"]
  | or => [.punct "||"]
  | symbol sign => sign.tokens

theorem cpp_ne_nil (token : HavingToken) : token.cpp ≠ [] := by
  cases token with
  | aggregate letterCase term => simp [cpp, HavingLeaf.tokens, placeTokens]
  | constant value =>
      simp only [cpp, HavingLeaf.tokens]
      split_ifs <;> exact List.cons_ne_nil _ _
  | and | or => exact List.cons_ne_nil _ _
  | symbol sign => cases sign <;> exact List.cons_ne_nil _ _

/-- Not an aggregate. -/
def isPlain : HavingToken → Bool
  | aggregate _ _ => false
  | _ => true

/-- The mode in which the lexer leaves a token that is not an aggregate. -/
def mode : HavingToken → Cpp.Mode
  | aggregate letterCase term => .ident (term.aggregate letterCase).toVar
  | constant value => .number (numeral value.natAbs)
  | and => .ident "and"
  | or => .ident "or"
  | symbol sign => sign.mode

theorem spells_text
    {token : HavingToken}
    (plain : token.isPlain = true) :
    Cpp.Spells token.text token.cpp token.mode := by
  cases token with
  | aggregate letterCase term => cases plain
  | constant value =>
      simp only [text, cpp, mode, HavingLeaf.tokens, integerText]
      split_ifs
      · exact spells_sign .minus _
      · exact .numeral _
  | and => exact .of_closed rfl
  | or => exact .of_closed rfl
  | symbol sign => exact sign.spells

/-- Names and numerals end at other characters. -/
theorem breaks_mode_of_isWord
    {token : HavingToken}
    (word : token.isWord = true)
    {character : Char}
    (ends : identRest character = false)
    (notPoint : character ≠ '.') :
    Cpp.breaks token.mode character := by
  cases token with
  | aggregate letterCase term => exact Cpp.breaks_ident ends _
  | constant value => exact Cpp.breaks_number ends notPoint _
  | and => exact Cpp.breaks_ident ends _
  | or => exact Cpp.breaks_ident ends _
  | symbol sign => cases word

theorem breaks_mode_space (token : HavingToken) : Cpp.breaks token.mode ' ' := by
  cases word : token.isWord with
  | true => exact breaks_mode_of_isWord word (by decide) (by decide)
  | false =>
      cases token with
      | symbol sign => cases sign <;> rfl
      | aggregate | constant | and | or => cases word

theorem head_symbol
    (sign : HavingSymbol)
    {character : Char}
    (head : character ∈ sign.text.head?) :
    identRest character = false ∧ character ≠ '.' := by
  cases sign <;> cases head <;> decide

/-- A token that joins the next one ends where it begins. -/
theorem breaks_mode
    {left right : HavingToken}
    (rightPlain : right.isPlain = true)
    (apart : MayTouch left right)
    (joined : left.joins right = true)
    {character : Char}
    (head : character ∈ right.text.head?) :
    Cpp.breaks left.mode character := by
  cases word : left.isWord with
  | true =>
      have rightSymbol := apart word
      cases right with
      | symbol sign =>
          obtain ⟨ends, notPoint⟩ := head_symbol sign head
          exact breaks_mode_of_isWord word ends notPoint
      | aggregate | constant | and | or => cases rightSymbol
  | false =>
      cases left with
      | aggregate | constant | and | or => cases word
      | symbol sign =>
          have fuses : (sign.pending.all fun last => right.text.head?.all fun first =>
              decide ([last, first] ∉ Cpp.fusingPairs)) = true := by
            cases right with
            | aggregate => cases rightPlain
            | constant | and | or | symbol => exact joined
          rw [mode, HavingSymbol.mode]
          cases pending : sign.pending with
          | none => rfl
          | some last =>
              rw [pending, Option.all_some, Option.mem_def.mp head, Option.all_some,
                decide_eq_true_eq] at fuses
              exact Cpp.breaks_punct fuses

end HavingToken

theorem spellsWord_spaces (count : Nat) : Cpp.SpellsWord (spaces count) [] := by
  induction count with
  | zero => exact .nil
  | succ count inductionHypothesis =>
      have space : Cpp.Spells [' '] [] .start := .of_closed rfl
      exact .behind space rfl (fun _ _ => rfl) inductionHypothesis

/-- The character behind a token of a run. -/
theorem breaks_mode_head
    {first : HavingToken}
    {rest : List HavingToken}
    (chain : (first :: rest).IsChain fun left right => MayTouch left right ∧ left.joins right = true)
    (plain : ∀ token ∈ rest, token.isPlain = true)
    (nonempty : ∀ token ∈ rest, token.text ≠ [])
    (after : Nat)
    {character : Char}
    (head : character ∈ (runText rest ++ spaces after).head?) :
    Cpp.breaks first.mode character := by
  cases rest with
  | nil =>
      have space := eq_space_of_mem_spaces (List.mem_of_mem_head? head)
      rw [space]
      exact first.breaks_mode_space
  | cons next rest =>
      obtain ⟨letter, more, shape⟩ := List.exists_cons_of_ne_nil
        (nonempty next (List.mem_cons_self ..))
      have nextHead : character ∈ next.text.head? := by
        rw [runText, List.flatMap_cons, shape] at head
        rw [shape]
        exact head
      obtain ⟨apart, joined⟩ := (List.isChain_cons_cons.mp chain).1
      exact HavingToken.breaks_mode (plain next (List.mem_cons_self ..)) apart joined nextHead

/-- A run without an aggregate is spelled as its tokens. -/
theorem spellsWord_run
    {run : List HavingToken}
    (chain : run.IsChain fun left right => MayTouch left right ∧ left.joins right = true)
    (plain : ∀ token ∈ run, token.isPlain = true)
    (nonempty : ∀ token ∈ run, token.text ≠ [])
    (after : Nat) :
    Cpp.SpellsWord (runText run ++ spaces after) (run.flatMap HavingToken.cpp) := by
  induction run with
  | nil => exact spellsWord_spaces after
  | cons first rest inductionHypothesis =>
      have restPlain : ∀ token ∈ rest, token.isPlain = true :=
        fun token member => plain token (List.mem_cons_of_mem _ member)
      have restNonempty : ∀ token ∈ rest, token.text ≠ [] :=
        fun token member => nonempty token (List.mem_cons_of_mem _ member)
      have later := inductionHypothesis chain.tail restPlain restNonempty
      have here := HavingToken.spells_text (plain first (List.mem_cons_self ..))
      have whole := Cpp.SpellsWord.behind here first.breaks_mode_space
        (fun _ head => breaks_mode_head chain restPlain restNonempty after head) later
      rwa [runText, List.flatMap_cons, List.append_assoc]

/-! ## Runs that begin with an aggregate -/

theorem atoi_spaces_append
    (count : Nat)
    (text : Text) :
    atoi (spaces count ++ text) = atoi text := by
  have skipped : (spaces count ++ text).dropWhile Char.isWhitespace =
      text.dropWhile Char.isWhitespace := by
    apply List.dropWhile_append_of_pos
    intro character member
    rw [eq_space_of_mem_spaces member]
    rfl
  rw [atoi, skipped, atoi]

/-- The function name, with the spaces the constructor keeps in front of it. -/
def AggregateTerm.spacedFunc (letterCase : LetterCase) (term : AggregateTerm) (before : Nat) :
    Text :=
  match term.label with
  | none => spaces before ++ term.func.text letterCase
  | some _ => term.func.text letterCase

/-- The constructor on an aggregate with spaces in front and text behind. -/
theorem AggregateTerm.ofText_spaced
    {term : AggregateTerm}
    (identifier : isIdent term.column = true)
    (letterCase : LetterCase)
    (columnPlain : '_' ∉ term.column)
    (small : term.group < 2 ^ 31)
    (before : Nat)
    {rest : Text}
    (restPlain : '_' ∉ rest) :
    Aggregate.ofText (spaces before ++ term.text letterCase ++ rest) =
      some ⟨term.group, term.spacedFunc letterCase before, term.column ++ rest⟩ := by
  obtain ⟨character, member, shown⟩ := exists_visible_of_isIdent identifier
  have visible : ∃ character ∈ term.column ++ rest, isBlank character = false :=
    ⟨character, List.mem_append_left _ member, shown⟩
  have wholePlain : '_' ∉ term.column ++ rest := by simp [columnPlain, restPlain]
  have noUnderscore : '_' ∉ spaces before := by
    intro inside
    cases eq_space_of_mem_spaces inside
  have funcPlain := term.func.underscore_notMem_text letterCase
  have funcPresent := term.func.text_ne_nil letterCase
  cases written : term.label with
  | none =>
      have isGroup : term.group = 0 := by simp [group, written]
      have spacedPlain : '_' ∉ spaces before ++ term.func.text letterCase := by
        simp [noUnderscore, funcPlain]
      have spacedPresent : spaces before ++ term.func.text letterCase ≠ [] := by
        simp [funcPresent]
      have read := Aggregate.ofText_pair spacedPresent spacedPlain wholePlain visible
      rw [isGroup, spacedFunc, written, text, labelText, written]
      simpa using read
  | some label =>
      have isGroup : term.group = label := by simp [group, written]
      rw [isGroup] at small
      have labelPlain : '_' ∉ spaces before ++ numeral label := by
        intro inside
        rcases List.mem_append.mp inside with inSpaces | inNumeral
        · exact noUnderscore inSpaces
        · exact absurd (isDigit_of_mem_numeral inNumeral) (by decide)
      have labelPresent : spaces before ++ numeral label ≠ [] := by
        simp [numeral_ne_nil]
      have read := Aggregate.ofText_triple labelPresent labelPlain funcPresent funcPlain
        wholePlain visible
      rw [atoi_spaces_append, atoi_numeral small] at read
      rw [isGroup, spacedFunc, written, text, labelText, written]
      simpa using read

/-- An average is recognised by its function name, unless spaces are kept in
front of it. -/
theorem AggregateTerm.isAvg_spaced
    (letterCase : LetterCase)
    (term : AggregateTerm)
    (before : Nat)
    (column : Text) :
    Aggregate.isAvg ⟨term.group, term.spacedFunc letterCase before, column⟩ =
      decide (term.func = .avg ∧ (term.label = none → before = 0)) := by
  cases written : term.label with
  | some label =>
      rw [spacedFunc, written]
      cases letterCase <;> cases term.func <;> rfl
  | none =>
      rw [spacedFunc, written]
      cases before with
      | zero => cases letterCase <;> cases term.func <;> rfl
      | succ before => simp [Aggregate.isAvg, Aggregate.isFunc, spaces_succ]

theorem Cpp.Spells.spaces
    {text : Text}
    {tokens : List Cpp.Token}
    {mode : Cpp.Mode}
    (spells : Cpp.Spells text tokens mode)
    (count : Nat) :
    Cpp.Spells (spaces count ++ text) tokens mode := by
  induction count with
  | zero => exact spells
  | succ count inductionHypothesis =>
      have space : Cpp.Spells [' '] [] .start := .of_closed rfl
      exact space.append_start inductionHypothesis

/-- Behind the first token of a run there is no aggregate. -/
theorem isPlain_of_mem_tail
    {first : HavingToken}
    {rest : List HavingToken}
    (chain : (first :: rest).IsChain fun left right => MayTouch left right ∧ left.joins right = true) :
    ∀ token ∈ rest, token.isPlain = true := by
  induction rest generalizing first with
  | nil => simp
  | cons next rest inductionHypothesis =>
      obtain ⟨⟨touch, joined⟩, later⟩ := List.isChain_cons_cons.mp chain
      refine List.forall_mem_cons.mpr ⟨?_, inductionHypothesis later⟩
      cases next with
      | aggregate letterCase term =>
          cases first with
          | symbol sign => cases joined
          | aggregate | constant | and | or => cases touch rfl
      | constant | and | or | symbol => rfl

theorem notMem_runText
    {run : List HavingToken}
    (plain : ∀ token ∈ run, token.isPlain = true) :
    '_' ∉ runText run := by
  intro member
  obtain ⟨token, inRun, inText⟩ := List.mem_flatMap.mp member
  have isPlain := plain token inRun
  cases token with
  | aggregate => cases isPlain
  | constant value => exact notMem_integerText (by decide) (by decide) value inText
  | and => exact absurd inText (by decide)
  | or => exact absurd inText (by decide)
  | symbol sign => cases sign <;> exact absurd inText (by decide)

/-- Tokens that are not aggregates have no identifiers in C++. -/
theorem ident_notMem_cpp
    {token : HavingToken}
    (plain : token.isPlain = true)
    (name : Text) :
    Cpp.Token.ident name ∉ token.cpp := by
  cases token with
  | aggregate => cases plain
  | constant value =>
      simp only [HavingToken.cpp, HavingLeaf.tokens]
      split_ifs <;> simp
  | and | or => simp [HavingToken.cpp]
  | symbol sign => cases sign <;> simp [HavingToken.cpp, HavingSymbol.tokens]

section Translating

variable {columns : List Column} (named : NamedColumns columns) {run : List HavingToken}
  (chain : run.IsChain fun left right => MayTouch left right ∧ left.joins right = true)
  (nonempty : ∀ token ∈ run, token.text ≠ [])
include named chain nonempty

theorem translates_plain_run
    (plain : ∀ token ∈ run, token.isPlain = true)
    (before after : Nat) :
    ∃ translated,
      ScanGenerator.havingToken columns (spaces before ++ runText run ++ spaces after) =
        some translated ∧ Cpp.SpellsWord translated (run.flatMap HavingToken.cpp) := by
  obtain ⟨mode, spells, ends⟩ := spellsWord_run chain plain nonempty after
  have whole := spells.spaces before
  rw [← List.append_assoc] at whole
  refine ⟨_, havingToken_self ?_ ?_, mode, whole, ends⟩
  · have blank : ∀ count, '_' ∉ spaces count := by
      intro count inside
      cases eq_space_of_mem_spaces inside
    simp [blank, notMem_runText plain]
  · rw [Bool.eq_false_iff, Ne, Column.isColumn_eq_true]
    rintro ⟨column, member, same⟩
    have lexed := whole.lex_eq
    rw [same, (Cpp.Spells.name (named column member)).lex_eq, Option.some.injEq] at lexed
    have inside : Cpp.Token.ident column.name ∈ run.flatMap HavingToken.cpp := by
      rw [← lexed]
      exact List.mem_singleton.mpr rfl
    obtain ⟨token, inRun, isToken⟩ := List.mem_flatMap.mp inside
    exact ident_notMem_cpp (plain token inRun) _ isToken

end Translating

/-- The part of a place behind the record. -/
theorem AggregateTerm.spells_spacedVar
    {columns : List Column}
    (named : NamedColumns columns)
    {term : AggregateTerm}
    (inTable : ∃ column ∈ columns, column.name = term.column)
    (letterCase : LetterCase)
    (before : Nat) :
    Cpp.Spells ("data" ++ itoa term.group ++ "->at(pos)->" ++
        (term.spacedFunc letterCase before ++ '_' :: term.column))
      (placeTokens term.group (term.aggregate letterCase).toVar)
      (.ident (term.aggregate letterCase).toVar) := by
  have identifier := HavingLeaf.isIdent_column named inTable
  have name := Cpp.Spells.name (HavingLeaf.isName_toVar identifier letterCase)
  have isVar : term.func.text letterCase ++ '_' :: term.column =
      (term.aggregate letterCase).toVar := by
    simp [Aggregate.toVar, aggregate]
  have spaced : Cpp.Spells (term.spacedFunc letterCase before ++ '_' :: term.column)
      [.ident (term.aggregate letterCase).toVar] (.ident (term.aggregate letterCase).toVar) := by
    cases written : term.label with
    | some label =>
        rw [spacedFunc, written, isVar]
        exact name
    | none =>
        rw [spacedFunc, written, List.append_assoc, isVar]
        exact name.spaces before
  exact (spells_record term.group).append_start spaced

/-- The translation of a piece that begins with an aggregate. -/
theorem AggregateTerm.havingToken_spaced
    {columns : List Column}
    {term : AggregateTerm}
    (identifier : isIdent term.column = true)
    (letterCase : LetterCase)
    (columnPlain : '_' ∉ term.column)
    (small : term.group < 2 ^ 31)
    (before : Nat)
    {rest : Text}
    (restPlain : '_' ∉ rest) :
    ScanGenerator.havingToken columns (spaces before ++ term.text letterCase ++ rest) =
      some ("data" ++ itoa term.group ++ "->at(pos)->" ++
        (term.spacedFunc letterCase before ++ '_' :: term.column) ++
          (rest ++ if term.func = .avg ∧ (term.label = none → before = 0) then
            (".value()" : Text) else [])) := by
  have underscore := term.underscore_mem_text letterCase
  have isAggregate : Aggregate.isAggregate (spaces before ++ term.text letterCase ++ rest) = true := by
    rw [Aggregate.isAggregate_eq_true]
    simp [underscore]
  rw [ScanGenerator.havingToken, if_pos isAggregate,
    ofText_spaced identifier letterCase columnPlain small before restPlain, Option.map_some,
    Aggregate.readText, isAvg_spaced, Aggregate.place, Aggregate.toVar]
  simp only [decide_eq_true_eq, List.append_assoc, List.cons_append]
  rfl

/-- A run that begins with an aggregate keeps its tokens. -/
theorem translates_aggregate_run
    {columns : List Column}
    (named : NamedColumns columns)
    {letterCase : LetterCase}
    {term : AggregateTerm}
    (valid : (HavingToken.aggregate letterCase term).Valid columns)
    (notPlain : ¬(term.func = .avg ∧ term.label = none))
    {rest : List HavingToken}
    (chain : (HavingToken.aggregate letterCase term :: rest).IsChain
      fun left right => MayTouch left right ∧ left.joins right = true)
    (nonempty : ∀ token ∈ rest, token.text ≠ [])
    (before after : Nat) :
    ∃ translated,
      ScanGenerator.havingToken columns
          (spaces before ++ term.text letterCase ++ (runText rest ++ spaces after)) =
        some translated ∧
      Cpp.SpellsWord translated
        ((HavingToken.aggregate letterCase term).cpp ++ rest.flatMap HavingToken.cpp) := by
  obtain ⟨inTable, columnPlain, small⟩ := valid
  have identifier := HavingLeaf.isIdent_column named inTable
  have plain := isPlain_of_mem_tail chain
  have restPlain : '_' ∉ runText rest ++ spaces after := by
    intro member
    rcases List.mem_append.mp member with inRun | inSpaces
    · exact notMem_runText plain inRun
    · cases eq_space_of_mem_spaces inSpaces
  have read : ScanGenerator.havingToken columns _ = _ :=
    term.havingToken_spaced identifier letterCase columnPlain small before restPlain
  have place := term.spells_spacedVar named inTable letterCase before
  refine ⟨_, read, ?_⟩
  by_cases average : term.func = .avg
  · have alone : rest = [] := by
      cases rest with
      | nil => rfl
      | cons next rest =>
          obtain ⟨touch, joined⟩ := (List.isChain_cons_cons.mp chain).1
          cases next with
          | symbol sign => simp [HavingToken.joins, HavingToken.isAverage, average] at joined
          | aggregate | constant | and | or => cases touch rfl
    have isAvg : (term.aggregate letterCase).isAvg = true := by
      cases letterCase <;> simp [AggregateTerm.aggregate, Aggregate.isAvg, Aggregate.isFunc, average,
        Func.text]
    have value : Cpp.SpellsWord ".value()" [.punct ".", .ident "value", .punct "(", .punct ")"] :=
      ⟨.punct ')', .of_closed rfl, rfl⟩
    obtain ⟨mode, valueSpells, ends⟩ := value
    have recognised : term.func = .avg ∧ (term.label = none → before = 0) :=
      ⟨average, fun none => absurd ⟨average, none⟩ notPlain⟩
    rw [alone, if_pos recognised, HavingToken.cpp, HavingLeaf.tokens, if_pos isAvg, runText,
      List.flatMap_nil, List.flatMap_nil, List.nil_append, List.append_nil]
    refine .behind place (Cpp.breaks_ident (by decide) _) ?_ ⟨mode, valueSpells.spaces after, ends⟩
    intro character head
    cases after with
    | zero =>
        cases head
        exact Cpp.breaks_ident (by decide) _
    | succ after =>
        cases head
        exact Cpp.breaks_ident (by decide) _
  · have notAvg : ¬(term.aggregate letterCase).isAvg = true := by
      cases letterCase <;> cases isFunc : term.func <;>
        simp_all [AggregateTerm.aggregate, Aggregate.isAvg, Aggregate.isFunc, Func.text]
    rw [if_neg fun recognised => average recognised.1, HavingToken.cpp, HavingLeaf.tokens,
      if_neg notAvg, List.append_nil, List.append_nil]
    exact .behind place (Cpp.breaks_ident (by decide) _)
      (fun _ head => breaks_mode_head chain plain nonempty after head)
      (spellsWord_run chain.tail plain nonempty after)

/-! ## Layouts that keep the tokens -/

/-- The tokens can be laid out in any way: there is one, every average has its
group, and neighbours may be written together. -/
structure HavingTokens (tokens : List HavingToken) : Prop where
  present : tokens ≠ []
  labelled : ∀ token ∈ tokens, token.isPlainAverage = false
  joins : tokens.IsChain fun left right => left.joins right = true

section Keeping

variable {columns : List Column} (named : NamedColumns columns)
include named

theorem translates_run
    {run : List HavingToken}
    (valid : ∀ token ∈ run, token.Valid columns)
    (labelled : ∀ token ∈ run, token.isPlainAverage = false)
    (present : run ≠ [])
    (chain : run.IsChain fun left right => MayTouch left right ∧ left.joins right = true)
    (before after : Nat) :
    ∃ translated,
      ScanGenerator.havingToken columns (spaces before ++ runText run ++ spaces after) =
        some translated ∧ Cpp.SpellsWord translated (run.flatMap HavingToken.cpp) := by
  have nonempty : ∀ token ∈ run, token.text ≠ [] := by
    intro token member
    obtain ⟨-, character, inside, -⟩ := HavingToken.visible_text named (valid token member)
    exact List.ne_nil_of_mem inside
  obtain ⟨first, rest, rfl⟩ := List.exists_cons_of_ne_nil present
  have rest_plain := isPlain_of_mem_tail chain
  cases isFirst : first.isPlain with
  | true =>
      exact translates_plain_run named chain nonempty (List.forall_mem_cons.mpr ⟨isFirst, rest_plain⟩)
        before after
  | false =>
      cases first with
      | aggregate letterCase term =>
          have notPlain : ¬(term.func = .avg ∧ term.label = none) :=
            of_decide_eq_false (labelled _ (List.mem_cons_self ..))
          have translated := translates_aggregate_run named (valid _ (List.mem_cons_self ..)) notPlain
            chain (fun token member => nonempty token (List.mem_cons_of_mem _ member)) before after
          simpa [runText, HavingToken.text] using translated
      | constant | and | or | symbol => cases isFirst

theorem translates_pieces
    {pieces : List Text}
    {tokens : List HavingToken}
    (cut : Pieces pieces tokens)
    (valid : ∀ token ∈ tokens, token.Valid columns)
    (labelled : ∀ token ∈ tokens, token.isPlainAverage = false)
    (joins : tokens.IsChain fun left right => left.joins right = true) :
    ∃ translated spelled, pieces.mapM (ScanGenerator.havingToken columns) = some translated ∧
      List.Forall₂ Cpp.SpellsWord translated spelled ∧
        spelled.flatten = tokens.flatMap HavingToken.cpp := by
  induction cut with
  | nil => exact ⟨[], [], rfl, .nil, rfl⟩
  | @blank pieces tokens count _ inductionHypothesis =>
      obtain ⟨translated, spelled, mapped, words, flat⟩ := inductionHypothesis valid labelled joins
      obtain ⟨text, isText, word⟩ :=
        translates_plain_run named .nil (by simp) (List.forall_mem_nil _) count 0
      rw [runText, List.flatMap_nil, spaces_zero, List.append_nil, List.append_nil] at isText
      refine ⟨text :: translated, [] :: spelled, ?_, .cons word words, flat⟩
      simp [isText, mapped]
  | @run pieces tokens run before after present apart _ inductionHypothesis =>
      obtain ⟨runJoins, restJoins, -⟩ := List.isChain_append.mp joins
      obtain ⟨translated, spelled, mapped, words, flat⟩ := inductionHypothesis
        (fun token member => valid token (List.mem_append_right _ member))
        (fun token member => labelled token (List.mem_append_right _ member)) restJoins
      have chain : run.IsChain fun left right => MayTouch left right ∧ left.joins right = true :=
        List.isChain_iff_getElem.mpr fun i inside =>
          ⟨List.isChain_iff_getElem.mp apart i inside, List.isChain_iff_getElem.mp runJoins i inside⟩
      obtain ⟨text, isText, word⟩ := translates_run named
        (fun token member => valid token (List.mem_append_left _ member))
        (fun token member => labelled token (List.mem_append_left _ member)) present chain before
        after
      refine ⟨text :: translated, run.flatMap HavingToken.cpp :: spelled, ?_, .cons word words, ?_⟩
      · rw [List.mapM_cons, isText, mapped]
        rfl
      · rw [List.flatten_cons, flat, List.flatMap_append]

/-- On every layout of such tokens `parse_having` returns their C++ tokens. -/
theorem HavingTokens.laidOutAlike
    {tokens : List HavingToken}
    (free : HavingTokens tokens)
    (valid : ∀ token ∈ tokens, token.Valid columns) :
    LaidOutAlike columns tokens := by
  refine ⟨tokens.flatMap HavingToken.cpp, ?_⟩
  rintro layout rfl generator rfl written
  have visible : ∀ entry ∈ layout.written, Visible entry.2.text := fun entry member =>
    HavingToken.visible_text named (valid entry.2 (List.mem_map_of_mem member))
  have cut : Pieces (cExplodeLoop ' ' [] layout.text) layout.tokens :=
    pieces_loop layout.trailing layout.written visible layout.separated 0 [] (by simp) .nil
      (by simp)
  obtain ⟨translated, spelled, mapped, words, flat⟩ :=
    translates_pieces named cut valid free.labelled free.joins
  have long : layout.text ≠ [] := by
    obtain ⟨entry, rest, shape⟩ := List.exists_cons_of_ne_nil
      (List.map_eq_nil_iff.not.mp free.present)
    obtain ⟨-, character, inside, -⟩ := visible entry (shape ▸ List.mem_cons_self ..)
    have member : character ∈ layout.text := by
      rw [HavingLayout.text, HavingLayout.body, shape]
      simp [inside]
    exact List.ne_nil_of_mem member
  have somePiece : translated ≠ [] := by
    rintro rfl
    cases words
    obtain ⟨token, rest, shape⟩ := List.exists_cons_of_ne_nil free.present
    rw [shape, List.flatMap_cons, List.flatten_nil, List.nil_eq_append_iff] at flat
    exact token.cpp_ne_nil flat.1
  have enough : ¬layout.text.length < 1 := by
    have positive := List.length_pos_iff.mpr long
    omega
  obtain ⟨mode, spells, -⟩ := Cpp.spells_joinWith words somePiece
  rw [flat] at spells
  refine ⟨joinWith ' ' translated, ?_, spells.lex_eq⟩
  rw [ScanGenerator.parseHaving, written, if_neg enough, cExplode, if_neg long]
  simp only [Option.bind_eq_bind, Option.bind_some, mapped]
  rfl

end Keeping

end MfQuery
