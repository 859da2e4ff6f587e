import MfQuery.Having.Layout

/-!
# Layouts that change the tokens

Where a condition has an average without its group, or neighbours that do not
join, two layouts are emitted as different tokens. One of them has a single
space in front of every token; the other has a second space in front of the
average, or none between the neighbours.
-/

namespace MfQuery

open Text

/-! ## Words behind single spaces -/

/-- Words with a space in front of each. -/
def spacedWords (words : List Text) : Text := words.flatMap (' ' :: ·)

theorem spacedWords_append
    (before : List Text)
    (word : Text)
    (behind : List Text) :
    spacedWords (before ++ word :: behind) =
      spacedWords before ++ ' ' :: (word ++ spacedWords behind) := by
  simp [spacedWords]

theorem joinWith_nil_cons (words : List Text) : joinWith ' ' ([] :: words) = spacedWords words := by
  suffices general : ∀ word, joinWith ' ' (word :: words) = word ++ spacedWords words from
    general []
  induction words with
  | nil => simp [joinWith, spacedWords]
  | cons next words inductionHypothesis =>
      intro word
      rw [joinWith, inductionHypothesis]
      rfl

/-- A visible text whose only space can be its first character. -/
structure IsWord (text : Text) : Prop where
  free : ' ' ∉ text.tail
  visible : ∃ character ∈ text, isBlank character = false

theorem IsWord.of_visible
    {text : Text}
    (visible : Visible text) :
    IsWord text :=
  ⟨fun member => visible.1 (List.mem_of_mem_tail member), visible.2⟩

/-- `c_explode` cuts in front of every word. -/
theorem cExplodeLoop_spacedWords
    {words : List Text}
    (isWord : ∀ word ∈ words, IsWord word)
    (present : words ≠ [])
    (passed : Text) :
    cExplodeLoop ' ' passed (spacedWords words) = passed :: words := by
  induction words generalizing passed with
  | nil => exact absurd rfl present
  | cons word words inductionHypothesis =>
      obtain ⟨free, character, member, shown⟩ := isWord word (List.mem_cons_self ..)
      obtain ⟨first, rest, rfl⟩ := List.exists_cons_of_ne_nil (List.ne_nil_of_mem member)
      have restFree : ' ' ∉ rest := free
      have opened : spacedWords ((first :: rest) :: words) =
          ' ' :: first :: (rest ++ spacedWords words) := rfl
      rw [opened, cExplodeLoop, if_pos rfl, cExplodeLoop_append _ restFree, List.singleton_append]
      cases words with
      | nil =>
          have long := List.length_pos_iff.mpr (trim_ne_nil_of_mem member shown)
          rw [spacedWords, List.flatMap_nil, cExplodeLoop, if_pos long]
      | cons next words =>
          rw [inductionHypothesis
            (fun word later => isWord word (List.mem_cons_of_mem _ later)) (by simp)]

theorem parseHaving_spacedWords
    (generator : ScanGenerator)
    (named : NamedColumns generator.columns)
    {words : List Text}
    (isWord : ∀ word ∈ words, IsWord word)
    (present : words ≠ [])
    (written : generator.having = spacedWords words) :
    generator.parseHaving =
      (words.mapM (ScanGenerator.havingToken generator.columns)).map spacedWords := by
  obtain ⟨first, rest, shape⟩ := List.exists_cons_of_ne_nil present
  have opened : spacedWords words = ' ' :: (first ++ spacedWords rest) := by
    rw [shape]
    rfl
  have nonempty : spacedWords words ≠ [] := by simp [opened]
  have long : ¬(spacedWords words).length < 1 := by simp [opened]
  have empty : ScanGenerator.havingToken generator.columns [] = some [] := by
    have noColumn : Column.isColumn [] generator.columns = false := by
      rw [Bool.eq_false_iff, Ne, Column.isColumn_eq_true]
      rintro ⟨column, member, isEmpty⟩
      have name := named column member
      rw [← isEmpty] at name
      cases name
    exact havingToken_self (by simp) noColumn
  rw [ScanGenerator.parseHaving, written, if_neg long, cExplode, if_neg nonempty,
    cExplodeLoop_spacedWords isWord present]
  simp only [Option.bind_eq_bind, Option.bind_some, List.mapM_cons, empty]
  cases words.mapM (ScanGenerator.havingToken generator.columns) with
  | none => rfl
  | some translated => exact congrArg some (joinWith_nil_cons translated)

theorem spellsWord_spacedWords
    {words : List Text}
    {tokens : List (List Cpp.Token)}
    (spelled : List.Forall₂ Cpp.SpellsWord words tokens) :
    Cpp.SpellsWord (spacedWords words) tokens.flatten := by
  have whole := Cpp.spells_joinWith (.cons .nil spelled) (List.cons_ne_nil [] words)
  rwa [joinWith_nil_cons, List.flatten_cons, List.nil_append] at whole

/-! ## Tokens behind single spaces -/

namespace HavingToken

/-- The translation of a token. -/
def emitted : HavingToken → Text
  | aggregate letterCase term => (HavingLeaf.aggregate letterCase term).cpp
  | token => token.text

variable {columns : List Column} (named : NamedColumns columns) {token : HavingToken}
  (valid : token.Valid columns)
include named valid

theorem havingToken_text :
    ScanGenerator.havingToken columns token.text = some token.emitted := by
  cases token with
  | aggregate letterCase term =>
      have leafValid : (HavingLeaf.aggregate letterCase term).Valid columns := valid
      exact (HavingLeaf.translates named (leafValid.written named)).2
  | constant value => exact (havingTranslates_integer named value).2
  | and => exact (HavingOp.translates named .and).2
  | or => exact (HavingOp.translates named .or).2
  | symbol sign =>
      refine (havingTranslates_symbol named ?_ ?_ (visible_text named valid)).2
      · cases sign <;> decide
      · cases sign <;> decide

theorem spellsWord_emitted : Cpp.SpellsWord token.emitted token.cpp := by
  cases plain : token.isPlain with
  | false =>
      cases token with
      | aggregate letterCase term =>
          have leafValid : (HavingLeaf.aggregate letterCase term).Valid columns := valid
          exact HavingLeaf.spellsWord (leafValid.written named)
      | constant | and | or | symbol => cases plain
  | true =>
      have same : token.emitted = token.text := by
        cases token with
        | aggregate => cases plain
        | constant | and | or | symbol => rfl
      rw [same]
      exact ⟨token.mode, spells_text plain, token.breaks_mode_space⟩

end HavingToken

section Context

variable {columns : List Column} (named : NamedColumns columns) {tokens : List HavingToken}
  (valid : ∀ token ∈ tokens, token.Valid columns)
include named valid

theorem mapM_havingToken_text :
    (tokens.map HavingToken.text).mapM (ScanGenerator.havingToken columns) =
      some (tokens.map HavingToken.emitted) := by
  rw [List.mapM_map]
  exact mapM_eq_some_map fun token member => HavingToken.havingToken_text named (valid token member)

theorem spellsWord_emitted_tokens :
    Cpp.SpellsWord (spacedWords (tokens.map HavingToken.emitted))
      (tokens.flatMap HavingToken.cpp) := by
  have spelled : List.Forall₂ Cpp.SpellsWord (tokens.map HavingToken.emitted)
      (tokens.map HavingToken.cpp) := by
    rw [List.forall₂_map_left_iff, List.forall₂_map_right_iff, List.forall₂_same]
    exact fun token member => HavingToken.spellsWord_emitted named (valid token member)
  have whole := spellsWord_spacedWords spelled
  rwa [← List.flatMap_def] at whole

end Context

/-! ## Comparing two layouts -/

theorem separated_of_positive
    {written : List (Nat × HavingToken)}
    (positive : ∀ entry ∈ written, 0 < entry.1) :
    written.IsChain Separated :=
  List.isChain_iff_getElem.mpr fun _ inside _ _ => positive _ (List.getElem_mem inside)

/-- A single space in front of every token. -/
def singly (tokens : List HavingToken) : List (Nat × HavingToken) := tokens.map fun token => (1, token)

theorem positive_of_mem_singly
    {tokens : List HavingToken}
    {entry : Nat × HavingToken}
    (member : entry ∈ singly tokens) :
    0 < entry.1 := by
  obtain ⟨token, -, rfl⟩ := List.mem_map.mp member
  exact Nat.one_pos

theorem map_snd_singly (tokens : List HavingToken) : (singly tokens).map Prod.snd = tokens := by
  rw [singly, List.map_map]
  exact List.map_id tokens

theorem body_singly (tokens : List HavingToken) :
    HavingLayout.body (singly tokens) = spacedWords (tokens.map HavingToken.text) := by
  rw [HavingLayout.body, singly, spacedWords, List.flatMap_map, List.flatMap_map]
  rfl

theorem body_append (first second : List (Nat × HavingToken)) :
    HavingLayout.body (first ++ second) = HavingLayout.body first ++ HavingLayout.body second :=
  List.flatMap_append

/-- A generator with a given condition. -/
def havingGenerator (columns : List Column) (having : Text) : ScanGenerator where
  noGroupingVars := 0
  columns := columns
  selectColumns := []
  selectAggregates := []
  allAggregates := []
  selectConditions := []
  having := having
  groupingAttr := []
  emf := false

namespace LaidOutAlike

variable {columns : List Column} (named : NamedColumns columns)
include named

/-- If all layouts are emitted alike, they are emitted as the tokens of the
singly spaced one. -/
theorem lex_eq
    {tokens : List HavingToken}
    (alike : LaidOutAlike columns tokens)
    (valid : ∀ token ∈ tokens, token.Valid columns)
    (present : tokens ≠ [])
    (layout : HavingLayout)
    (lays : layout.tokens = tokens) :
    ∃ text, (havingGenerator columns layout.text).parseHaving = some text ∧
      Cpp.lex text = some (tokens.flatMap HavingToken.cpp) := by
  obtain ⟨cpp, all⟩ := alike
  have isWord : ∀ word ∈ tokens.map HavingToken.text, IsWord word := by
    intro word member
    obtain ⟨token, inside, rfl⟩ := List.mem_map.mp member
    exact .of_visible (HavingToken.visible_text named (valid token inside))
  obtain ⟨text, parsed, lexed⟩ := all
    ⟨singly tokens, 0, separated_of_positive fun _ member => positive_of_mem_singly member⟩
    (map_snd_singly tokens)
    (havingGenerator columns (spacedWords (tokens.map HavingToken.text))) rfl
    (by simp [HavingLayout.text, havingGenerator, body_singly])
  have translated := parseHaving_spacedWords
    (havingGenerator columns (spacedWords (tokens.map HavingToken.text))) named isWord
    (by simpa using present) rfl
  have mapped : (tokens.map HavingToken.text).mapM (ScanGenerator.havingToken columns) =
      some (tokens.map HavingToken.emitted) := mapM_havingToken_text named valid
  rw [parsed, havingGenerator, mapped, Option.map_some, Option.some.injEq] at translated
  obtain ⟨mode, spells, -⟩ := spellsWord_emitted_tokens named valid
  rw [translated, spells.lex_eq, Option.some.injEq] at lexed
  rw [lexed]
  exact all layout lays (havingGenerator columns layout.text) rfl rfl

variable {before behind : List HavingToken} {special : List (Nat × HavingToken)}
  (alike : LaidOutAlike columns (before ++ special.map Prod.snd ++ behind))
  (valid : ∀ token ∈ before ++ special.map Prod.snd ++ behind, token.Valid columns)
  (separated : (singly before ++ special ++ singly behind).IsChain Separated)
  {word : Text}
  (isWord : IsWord word)
  (written : HavingLayout.body special = ' ' :: word)
include alike valid separated isWord written

/-- Some tokens are written as one word, all others behind single spaces. -/
theorem lex_word :
    ∃ translated, ScanGenerator.havingToken columns word = some translated ∧
      Cpp.lex (translated ++ spacedWords (behind.map HavingToken.emitted)) =
        some ((special.map Prod.snd).flatMap HavingToken.cpp ++ behind.flatMap HavingToken.cpp) := by
  have validBefore : ∀ token ∈ before, token.Valid columns :=
    fun token member => valid token (by simp [member])
  have validBehind : ∀ token ∈ behind, token.Valid columns :=
    fun token member => valid token (by simp [member])
  have words : ∀ other ∈ before.map HavingToken.text ++ word :: behind.map HavingToken.text,
      IsWord other := by
    intro other member
    rcases List.mem_append.mp member with inBefore | later
    · obtain ⟨token, inside, rfl⟩ := List.mem_map.mp inBefore
      exact .of_visible (HavingToken.visible_text named (validBefore token inside))
    · rcases List.mem_cons.mp later with rfl | inBehind
      · exact isWord
      · obtain ⟨token, inside, rfl⟩ := List.mem_map.mp inBehind
        exact .of_visible (HavingToken.visible_text named (validBehind token inside))
  obtain ⟨layout, lays, layoutText⟩ : ∃ layout : HavingLayout,
      layout.tokens = before ++ special.map Prod.snd ++ behind ∧
        layout.text =
          spacedWords (before.map HavingToken.text ++ word :: behind.map HavingToken.text) := by
    refine ⟨⟨singly before ++ special ++ singly behind, 0, separated⟩, ?_, ?_⟩
    · rw [HavingLayout.tokens, List.map_append, List.map_append, map_snd_singly, map_snd_singly]
    · rw [HavingLayout.text, spaces_zero, List.append_nil, body_append, body_append, body_singly,
        body_singly, written, spacedWords_append]
      simp
  have present : before ++ special.map Prod.snd ++ behind ≠ [] := by
    cases special with
    | nil => cases written
    | cons entry special => simp
  obtain ⟨text, parsed, lexed⟩ := alike.lex_eq named valid present layout lays
  have split := parseHaving_spacedWords (havingGenerator columns layout.text) named words (by simp)
    layoutText
  have mappedBefore := mapM_havingToken_text named validBefore
  have mappedBehind := mapM_havingToken_text named validBehind
  rw [parsed, havingGenerator, List.mapM_append, mappedBefore] at split
  cases translation : ScanGenerator.havingToken columns word with
  | none => simp [translation] at split
  | some translated =>
      simp only [List.mapM_cons, translation, mappedBehind, Option.bind_eq_bind, Option.bind_some,
        Option.pure_def, Option.map_some, Option.some.injEq] at split
      refine ⟨translated, rfl, ?_⟩
      rw [split, spacedWords_append,
        (spellsWord_emitted_tokens named validBefore).lex_append] at lexed
      obtain ⟨rest, isRest, same⟩ := Option.map_eq_some_iff.mp lexed
      rw [List.flatMap_append, List.flatMap_append, List.append_assoc,
        List.append_cancel_left_eq] at same
      rw [isRest, same]

/-- The word is translated to the tokens it is made of. -/
theorem eq_of_spellsWord
    {translated : Text}
    (translation : ScanGenerator.havingToken columns word = some translated)
    {spelled : List Cpp.Token}
    (spells : Cpp.SpellsWord translated spelled) :
    spelled = (special.map Prod.snd).flatMap HavingToken.cpp := by
  obtain ⟨text, isText, lexed⟩ := alike.lex_word named valid separated isWord written
  rw [translation, Option.some.injEq] at isText
  obtain ⟨mode, spelledText, ends⟩ := spells
  have rest := spellsWord_emitted_tokens named
    (fun token member => valid token (List.mem_append_right _ member))
  have space : ∀ character ∈ (spacedWords (behind.map HavingToken.emitted)).head?,
      Cpp.breaks mode character := by
    intro character head
    cases behind with
    | nil => cases head
    | cons next behind =>
        cases head
        exact ends
  obtain ⟨_, whole, -⟩ := Cpp.SpellsWord.behind spelledText ends space rest
  rw [← isText, whole.lex_eq, Option.some.injEq, List.append_cancel_right_eq] at lexed
  exact lexed

end LaidOutAlike

/-! ## Averages without a group -/

theorem AggregateTerm.isAvg_of_avg
    {term : AggregateTerm}
    (average : term.func = .avg)
    (letterCase : LetterCase) :
    (term.aggregate letterCase).isAvg = true := by
  cases letterCase <;>
    simp [aggregate, Aggregate.isAvg, Aggregate.isFunc, average, Func.text]

/-- Every average has its group where all layouts are emitted alike. -/
theorem LaidOutAlike.labelled
    {columns : List Column}
    (named : NamedColumns columns)
    {tokens : List HavingToken}
    (alike : LaidOutAlike columns tokens)
    (valid : ∀ token ∈ tokens, token.Valid columns) :
    ∀ token ∈ tokens, token.isPlainAverage = false := by
  intro token member
  rw [Bool.eq_false_iff]
  intro average
  obtain ⟨before, behind, rfl⟩ := List.append_of_mem member
  cases token with
  | constant | and | or | symbol => cases average
  | aggregate letterCase term =>
      obtain ⟨isAverage, unlabelled⟩ : term.func = .avg ∧ term.label = none :=
        of_decide_eq_true average
      obtain ⟨inTable, columnPlain, small⟩ := valid _ member
      have identifier := HavingLeaf.isIdent_column named inTable
      obtain ⟨free, character, inside, shown⟩ := HavingToken.visible_text named (valid _ member)
      have isWord : IsWord (' ' :: term.text letterCase) :=
        ⟨free, character, List.mem_cons_of_mem ' ' inside, shown⟩
      -- a second space in front of the average
      have regroup : before ++ HavingToken.aggregate letterCase term :: behind =
          before ++ [(2, HavingToken.aggregate letterCase term)].map Prod.snd ++ behind := by simp
      have positive : ∀ entry ∈ singly before ++
          [(2, HavingToken.aggregate letterCase term)] ++ singly behind, 0 < entry.1 := by
        intro entry entryIn
        simp only [List.append_assoc, List.singleton_append, List.mem_append, List.mem_cons]
          at entryIn
        rcases entryIn with inBefore | rfl | inBehind
        · exact positive_of_mem_singly inBefore
        · exact Nat.two_pos
        · exact positive_of_mem_singly inBehind
      rw [regroup] at alike valid
      have read : ScanGenerator.havingToken columns _ = _ :=
        term.havingToken_spaced identifier letterCase columnPlain small 1 List.not_mem_nil
      rw [if_neg fun recognised => absurd (recognised.2 unlabelled) (by decide), List.append_nil,
        List.append_nil, List.append_nil] at read
      have place := term.spells_spacedVar named inTable letterCase 1
      have same := alike.eq_of_spellsWord named valid (separated_of_positive positive) isWord
        (by simp [HavingLayout.body, spaces, HavingToken.text]) read
        ⟨_, place, Cpp.breaks_ident (by decide) _⟩
      have lengths := congrArg List.length same
      simp [HavingToken.cpp, HavingLeaf.tokens, term.isAvg_of_avg isAverage] at lengths

/-! ## Neighbours -/

section Neighbours

variable {left right : HavingToken}

theorem separated_pair
    (touch : MayTouch left right)
    (before behind : List HavingToken) :
    (singly before ++ [(1, left), (0, right)] ++ singly behind).IsChain Separated := by
  have single (tokens : List HavingToken) : (singly tokens).IsChain Separated :=
    separated_of_positive fun _ member => positive_of_mem_singly member
  have pair : ((1, left) :: (0, right) :: singly behind).IsChain Separated := by
    rw [List.isChain_cons_cons, List.isChain_cons]
    refine ⟨?_, ?_, single behind⟩
    · intro leftWord rightWord
      rw [touch leftWord] at rightWord
      cases rightWord
    · intro next isHead _ _
      exact positive_of_mem_singly (List.mem_of_mem_head? isHead)
  rw [List.append_assoc, List.isChain_append]
  refine ⟨single before, pair, ?_⟩
  intro last _ first isHead _ _
  cases isHead
  exact Nat.one_pos

theorem isWord_pair
    (leftVisible : Visible left.text)
    (rightVisible : Visible right.text) :
    IsWord (left.text ++ right.text) := by
  obtain ⟨leftFree, character, member, shown⟩ := leftVisible
  have free : ' ' ∉ left.text ++ right.text := by simp [leftFree, rightVisible.1]
  exact ⟨fun member => free (List.mem_of_mem_tail member), character,
    List.mem_append_left _ member, shown⟩

/-- A piece with an underscore is emitted as a place. -/
theorem exists_place
    {columns : List Column}
    {piece translated : Text}
    (underscore : '_' ∈ piece)
    (translation : ScanGenerator.havingToken columns piece = some translated) :
    ∃ rest, translated = 'd' :: rest := by
  rw [ScanGenerator.havingToken, if_pos ((Aggregate.isAggregate_eq_true _).mpr underscore)]
    at translation
  obtain ⟨aggregate, -, rfl⟩ := Option.map_eq_some_iff.mp translation
  exact ⟨_, rfl⟩

/-- A text that begins with `d` begins with an identifier. -/
theorem exists_ident_of_lex
    {rest : Text}
    {tokens : List Cpp.Token}
    (lexed : Cpp.lex ('d' :: rest) = some tokens) :
    ∃ name more, tokens = .ident name :: more := by
  have begins : Cpp.begin 'd' = .ident ['d'] := by decide
  simp only [Cpp.lex, Cpp.run, Cpp.advance, begins, Option.bind_eq_bind, Option.bind_some,
    List.nil_append] at lexed
  obtain ⟨⟨completed, mode⟩, ran, finishing⟩ := Option.bind_eq_some_iff.mp lexed
  obtain ⟨pending, finished, same⟩ := Option.bind_eq_some_iff.mp finishing
  cases same
  obtain ⟨⟨later, final⟩, ranLater, same⟩ := Option.bind_eq_some_iff.mp ran
  cases same
  obtain ⟨extra, more, shape⟩ := Cpp.head_of_run_ident ranLater finished
  refine ⟨'d' :: extra, more, ?_⟩
  rw [shape]
  rfl

end Neighbours

/-! ## Comments -/

/-- Characters that are in no emitted aggregate. -/
theorem notMem_emitted_aggregate
    {columns : List Column}
    (named : NamedColumns columns)
    {letterCase : LetterCase}
    {term : AggregateTerm}
    (valid : (HavingToken.aggregate letterCase term).Valid columns)
    {character : Char}
    (foreign : identRest character = false)
    (other : character ∉ ("->at(pos)->.value()" : Text)) :
    character ∉ (HavingToken.aggregate letterCase term).emitted := by
  have name := HavingLeaf.isName_toVar (HavingLeaf.isIdent_column named valid.1) letterCase
  simp only [Cpp.isName, Bool.and_eq_true] at name
  have notInVar : character ∉ (term.aggregate letterCase).toVar := not_mem_of_isIdent name.1 foreign
  have vector : isIdent "data" = true := by decide
  have notInData : character ∉ ("data" : Text) := not_mem_of_isIdent vector foreign
  have fixed : ("->at(pos)->.value()" : Text) = "->at(pos)->" ++ ".value()" := rfl
  rw [fixed, List.mem_append, not_or] at other
  have notSign : character ≠ '-' := by
    rintro rfl
    exact other.1 (by decide)
  have noDigit : character.isDigit = false := by
    rw [Bool.eq_false_iff]
    intro digit
    rw [identRest_of_isDigit digit] at foreign
    cases foreign
  have notInGroup := notMem_itoa noDigit notSign (term.aggregate letterCase).group
  simp only [HavingToken.emitted, HavingLeaf.cpp, Aggregate.readText, Aggregate.place]
  split_ifs
  · simp only [List.mem_append, not_or]
    exact ⟨⟨⟨⟨notInData, notInGroup⟩, other.1⟩, notInVar⟩, other.2⟩
  · simp only [List.append_nil, List.mem_append, not_or]
    exact ⟨⟨⟨notInData, notInGroup⟩, other.1⟩, notInVar⟩

section Emitted

variable {columns : List Column} (named : NamedColumns columns) {token : HavingToken}
  (valid : token.Valid columns)
include named valid

theorem newline_notMem_emitted : '\n' ∉ token.emitted := by
  cases token with
  | aggregate => exact notMem_emitted_aggregate named valid (by decide) (by decide)
  | constant value => exact notMem_integerText (by decide) (by decide) value
  | and | or => decide
  | symbol sign => cases sign <;> decide

theorem slash_notMem_emitted :
    '/' ∉ token.emitted ∨ token.emitted = ['/'] := by
  cases token with
  | aggregate => exact .inl (notMem_emitted_aggregate named valid (by decide) (by decide))
  | constant value => exact .inl (notMem_integerText (by decide) (by decide) value)
  | and | or => exact .inl (by decide)
  | symbol sign =>
      cases sign with
      | div => exact .inr rfl
      | opening | closing | add | sub | mul | mod | lt | gt | le | ge | eq | equal | ne | differ =>
          exact .inl (by decide)

end Emitted

/-- Words behind an opened block comment do not close it. -/
theorem run_blockComment_words
    {words : List Text}
    (noSlash : ∀ word ∈ words, '/' ∉ word ∨ word = ['/'])
    {mode : Cpp.Mode}
    (inBlock : mode.inBlock = true) :
    ∃ final, Cpp.run mode (spacedWords words) = some ([], final) ∧ final.inBlock = true := by
  induction words generalizing mode with
  | nil => exact ⟨mode, rfl, inBlock⟩
  | cons word words inductionHypothesis =>
      have space : Cpp.run mode [' '] = some ([], .blockComment) := by
        cases mode with
        | blockComment | blockStar => rfl
        | start | ident | number | string | escape | punct | lineComment => cases inBlock
      have here : ∃ next, Cpp.run .blockComment word = some ([], next) ∧ next.inBlock = true := by
        rcases noSlash word (List.mem_cons_self ..) with absent | rfl
        · exact Cpp.run_of_inBlock rfl absent
        · exact ⟨.blockComment, rfl, rfl⟩
      obtain ⟨next, ran, nextInBlock⟩ := here
      obtain ⟨final, ranLater, finalInBlock⟩ := inductionHypothesis
        (fun other member => noSlash other (List.mem_cons_of_mem _ member)) nextInBlock
      exact ⟨final, Cpp.run_append_of_eq space (Cpp.run_append_of_eq ran ranLater), finalInBlock⟩

/-- A block comment that is not closed leaves no tokens. -/
theorem lex_blockComment_words
    {words : List Text}
    (noSlash : ∀ word ∈ words, '/' ∉ word ∨ word = ['/']) :
    Cpp.lex ('/' :: '*' :: spacedWords words) = none := by
  have opened : Cpp.run .start ['/', '*'] = some ([], .blockComment) := by decide
  have commented : Cpp.Mode.inBlock .blockComment = true := rfl
  obtain ⟨final, ran, inBlock⟩ := run_blockComment_words noSlash commented
  have whole := Cpp.run_append_of_eq opened ran
  simp only [List.cons_append, List.nil_append] at whole
  simp [Cpp.lex, whole, Cpp.finish_of_inBlock inBlock]

/-! ## Neighbours that do not join -/

/-- Symbols that do not join are read as other tokens, or open a comment. -/
theorem spellsWord_fused
    (left right : HavingSymbol)
    (fused : (HavingToken.symbol left).joins (.symbol right) = false) :
    (left = .div ∧ (right = .div ∨ right = .mul)) ∨
      ∃ spelled, Cpp.SpellsWord (left.text ++ right.text) spelled ∧
        spelled ≠ left.tokens ++ right.tokens := by
  cases left <;> cases right <;>
    first
    | exact absurd fused (by decide)
    | exact .inl (by decide)
    | exact .inr ⟨_, ⟨_, .of_closed rfl, rfl⟩, by decide⟩

/-- A symbol joins every numeral but a negative one behind a minus sign. -/
theorem eq_sub_of_fused
    {sign : HavingSymbol}
    {value : Int}
    (fused : (HavingToken.symbol sign).joins (.constant value) = false) :
    sign = .sub ∧ value < 0 := by
  by_cases negative : value < 0
  · have text : (HavingToken.constant value).text = '-' :: numeral value.natAbs := if_pos negative
    simp only [HavingToken.joins, text, List.head?_cons, Option.all_some] at fused
    refine ⟨?_, negative⟩
    cases sign with
    | sub => rfl
    | opening | closing | add | mul | div | mod | lt | gt | le | ge | eq | equal | ne | differ =>
        exact absurd fused (by decide)
  · have text : (HavingToken.constant value).text = numeral value.natAbs := if_neg negative
    obtain ⟨digit, rest, shape⟩ := List.exists_cons_of_ne_nil (numeral_ne_nil value.natAbs)
    have isDigit : digit.isDigit = true := isDigit_of_mem_numeral (by rw [shape]; simp)
    have apart (last : Char) := Cpp.notMem_fusingPairs (identRest_of_isDigit isDigit) last
    simp only [HavingToken.joins, text, shape, List.head?_cons, Option.all_some, apart,
      not_false_eq_true, decide_true] at fused
    cases sign <;> cases fused

/-- The method call behind a symbol. -/
theorem spellsWord_value (sign : HavingSymbol) :
    Cpp.SpellsWord (sign.text ++ ".value()")
      (sign.tokens ++ [.punct ".", .ident "value", .punct "(", .punct ")"]) := by
  cases sign <;> exact ⟨_, .of_closed rfl, rfl⟩

/-- A text that begins with a symbol is no name. -/
theorem isName_symbol_append
    (sign : HavingSymbol)
    (rest : Text) :
    Cpp.isName (sign.text ++ rest) = false := by
  cases sign <;> rfl

namespace LaidOutAlike

variable {columns : List Column} (named : NamedColumns columns)
  {before behind : List HavingToken}
include named

/-- Two neighbours written together. -/
theorem lex_pair
    {left right : HavingToken}
    (alike : LaidOutAlike columns (before ++ [left, right] ++ behind))
    (valid : ∀ token ∈ before ++ [left, right] ++ behind, token.Valid columns)
    (touch : MayTouch left right) :
    ∃ translated, ScanGenerator.havingToken columns (left.text ++ right.text) = some translated ∧
      Cpp.lex (translated ++ spacedWords (behind.map HavingToken.emitted)) =
        some (left.cpp ++ right.cpp ++ behind.flatMap HavingToken.cpp) ∧
      ∀ spelled, Cpp.SpellsWord translated spelled → spelled = left.cpp ++ right.cpp := by
  have leftVisible := HavingToken.visible_text named (valid left (by simp))
  have rightVisible := HavingToken.visible_text named (valid right (by simp))
  have isWord := isWord_pair leftVisible rightVisible
  have separated := separated_pair touch before behind
  have written : HavingLayout.body [(1, left), (0, right)] = ' ' :: (left.text ++ right.text) := by
    simp [HavingLayout.body, spaces]
  have cpp : ([(1, left), (0, right)].map Prod.snd).flatMap HavingToken.cpp =
      left.cpp ++ right.cpp := by simp
  obtain ⟨translated, translation, lexed⟩ := lex_word named alike valid separated isWord written
  rw [cpp] at lexed
  refine ⟨translated, translation, lexed, ?_⟩
  intro spelled spells
  rw [eq_of_spellsWord named alike valid separated isWord written translation spells, cpp]

theorem not_symbol_aggregate
    {sign : HavingSymbol}
    {letterCase : LetterCase}
    {term : AggregateTerm}
    (valid : ∀ token ∈ before ++ [.symbol sign, .aggregate letterCase term] ++ behind,
      token.Valid columns) :
    ¬LaidOutAlike columns (before ++ [.symbol sign, .aggregate letterCase term] ++ behind) := by
  intro alike
  obtain ⟨translated, translation, lexed, -⟩ := alike.lex_pair named valid fun word => by cases word
  have underscore : '_' ∈ (HavingToken.symbol sign).text ++
      (HavingToken.aggregate letterCase term).text :=
    List.mem_append_right _ (term.underscore_mem_text letterCase)
  obtain ⟨rest, rfl⟩ := exists_place underscore translation
  obtain ⟨name, more, shape⟩ := exists_ident_of_lex lexed
  cases sign <;> simp [HavingToken.cpp, HavingSymbol.tokens] at shape

theorem not_average_symbol
    {letterCase : LetterCase}
    {term : AggregateTerm}
    (average : term.func = .avg)
    {sign : HavingSymbol}
    (valid : ∀ token ∈ before ++ [.aggregate letterCase term, .symbol sign] ++ behind,
      token.Valid columns) :
    ¬LaidOutAlike columns (before ++ [.aggregate letterCase term, .symbol sign] ++ behind) := by
  intro alike
  obtain ⟨translated, translation, -, spelledAs⟩ := alike.lex_pair named valid fun _ => rfl
  obtain ⟨inTable, columnPlain, small⟩ := valid (.aggregate letterCase term) (by simp)
  have identifier := HavingLeaf.isIdent_column named inTable
  have signPlain : '_' ∉ sign.text := by cases sign <;> decide
  have read : ScanGenerator.havingToken columns _ = _ :=
    term.havingToken_spaced identifier letterCase columnPlain small 0 signPlain
  rw [spaces_zero, List.nil_append, if_pos ⟨average, fun _ => rfl⟩] at read
  have isTranslated := Option.some.inj (translation.symm.trans read)
  have place := term.spells_spacedVar named inTable letterCase 0
  have ends : ∀ character ∈ (sign.text ++ ".value()").head?,
      Cpp.breaks (.ident (term.aggregate letterCase).toVar) character := by
    intro character head
    have inSign : character ∈ sign.text.head? := by cases sign <;> exact head
    exact Cpp.breaks_ident (HavingToken.head_symbol sign inSign).1 _
  have spelled := Cpp.SpellsWord.behind place (Cpp.breaks_ident (by decide) _) ends
    (spellsWord_value sign)
  rw [← isTranslated] at spelled
  have same := spelledAs _ spelled
  have isAvg := term.isAvg_of_avg average letterCase
  simp only [HavingToken.cpp, HavingLeaf.tokens, isAvg, if_true, List.append_assoc,
    List.append_cancel_left_eq] at same
  cases sign <;> simp [HavingSymbol.tokens, HavingSymbol.text] at same

/-- A symbol and a token that is no aggregate are kept together. -/
theorem havingToken_symbol_append
    {sign : HavingSymbol}
    {right : HavingToken}
    (valid : right.Valid columns)
    (plain : right.isPlain = true) :
    ScanGenerator.havingToken columns (sign.text ++ right.text) = some (sign.text ++ right.text) := by
  have noUnderscore : '_' ∉ sign.text ++ right.text := by
    have bothPlain : ∀ token ∈ [HavingToken.symbol sign, right], token.isPlain = true :=
      List.forall_mem_cons.mpr ⟨rfl, List.forall_mem_singleton.mpr plain⟩
    simpa [runText, HavingToken.text] using notMem_runText bothPlain
  have signValid : (HavingToken.symbol sign).Valid columns := trivial
  have signVisible : Visible sign.text := HavingToken.visible_text named signValid
  have rightVisible := HavingToken.visible_text named valid
  obtain ⟨signFree, character, member, shown⟩ := signVisible
  exact (havingTranslates_symbol named noUnderscore (isName_symbol_append sign right.text)
    ⟨by simp [signFree, rightVisible.1], character, List.mem_append_left _ member, shown⟩).2

theorem not_symbol_fused
    {sign : HavingSymbol}
    {right : HavingToken}
    (fused : (HavingToken.symbol sign).joins right = false)
    (plain : right.isPlain = true)
    (valid : ∀ token ∈ before ++ [.symbol sign, right] ++ behind, token.Valid columns) :
    ¬LaidOutAlike columns (before ++ [.symbol sign, right] ++ behind) := by
  intro alike
  obtain ⟨translated, translation, lexed, spelledAs⟩ :=
    alike.lex_pair named valid fun word => by cases word
  have kept : ScanGenerator.havingToken columns (sign.text ++ right.text) = _ :=
    havingToken_symbol_append named (valid right (by simp)) plain
  cases Option.some.inj (translation.symm.trans kept)
  have validBehind : ∀ token ∈ behind, token.Valid columns :=
    fun token member => valid token (List.mem_append_right _ member)
  cases right with
  | aggregate => cases plain
  | and | or => cases sign <;> exact absurd fused (by decide)
  | constant value =>
      obtain ⟨rfl, negative⟩ := eq_sub_of_fused fused
      have text : HavingSymbol.sub.text ++ (HavingToken.constant value).text =
          ['-', '-'] ++ numeral value.natAbs := by
        rw [HavingToken.text, integerText, if_pos negative]
        rfl
      have decrement : Cpp.Spells ['-', '-'] [.punct "--"] .start := .of_closed rfl
      have spells := decrement.append_start (.numeral value.natAbs)
      have same := spelledAs _
        ⟨_, text ▸ spells, Cpp.breaks_number (by decide) (by decide) _⟩
      simp [HavingToken.cpp, HavingSymbol.tokens, HavingLeaf.tokens, negative] at same
  | symbol other =>
      rcases spellsWord_fused sign other fused with ⟨rfl, rfl | rfl⟩ | ⟨spelled, spells, differs⟩
      · have oneLine : '\n' ∉ spacedWords (behind.map HavingToken.emitted) := by
          simp only [spacedWords, List.mem_flatMap, List.mem_map, List.mem_cons, not_exists, not_and]
          rintro word ⟨token, member, rfl⟩ (isSpace | inside)
          · cases isSpace
          · exact newline_notMem_emitted named (validBehind token member) inside
        have hidden := Cpp.lex_lineComment oneLine
        cases hidden.symm.trans lexed
      · have noSlash : ∀ word ∈ behind.map HavingToken.emitted, '/' ∉ word ∨ word = ['/'] := by
          intro word member
          obtain ⟨token, inside, rfl⟩ := List.mem_map.mp member
          exact slash_notMem_emitted named (validBehind token inside)
        have hidden := lex_blockComment_words noSlash
        cases hidden.symm.trans lexed
      · exact differs (spelledAs spelled spells)

/-- Neighbours join where all layouts are emitted alike. -/
theorem joins_pair
    {left right : HavingToken}
    (alike : LaidOutAlike columns (before ++ [left, right] ++ behind))
    (valid : ∀ token ∈ before ++ [left, right] ++ behind, token.Valid columns) :
    left.joins right = true := by
  by_contra apart
  rw [Bool.not_eq_true] at apart
  cases left with
  | symbol sign =>
      cases plain : right.isPlain with
      | true => exact not_symbol_fused named apart plain valid alike
      | false =>
          cases right with
          | aggregate => exact not_symbol_aggregate named valid alike
          | constant | and | or | symbol => cases plain
  | aggregate letterCase term =>
      cases right with
      | symbol sign =>
          have average : term.func = .avg := by
            simpa [HavingToken.joins, HavingToken.isAverage] using apart
          exact not_average_symbol named average valid alike
      | aggregate | constant | and | or => cases apart
  | constant | and | or => cases right <;> cases apart

theorem joins
    {tokens : List HavingToken}
    (alike : LaidOutAlike columns tokens)
    (valid : ∀ token ∈ tokens, token.Valid columns) :
    tokens.IsChain fun left right => left.joins right = true := by
  rw [List.isChain_iff_getElem]
  intro i inside
  have split : tokens =
      tokens.take i ++ [tokens[i], tokens[i + 1]] ++ tokens.drop (i + 2) := by
    simp
  have pairAlike := alike
  have pairValid := valid
  rw [split] at pairAlike pairValid
  exact joins_pair named pairAlike pairValid

omit named in
/-- Without a token the empty text is emitted as `true`, a blank one as
nothing. -/
theorem present
    {tokens : List HavingToken}
    (alike : LaidOutAlike columns tokens) :
    tokens ≠ [] := by
  rintro rfl
  obtain ⟨cpp, all⟩ := alike
  obtain ⟨empty, parsedEmpty, lexedEmpty⟩ :=
    all ⟨[], 0, .nil⟩ rfl (havingGenerator columns []) rfl rfl
  obtain ⟨blank, parsedBlank, lexedBlank⟩ :=
    all ⟨[], 1, .nil⟩ rfl (havingGenerator columns [' ']) rfl rfl
  cases parsedEmpty
  cases parsedBlank
  cases lexedEmpty
  cases lexedBlank

end LaidOutAlike

/-! ## White space -/

/-- HAVING is insensitive to white space exactly on the conditions that have a
token, a group in front of every average, and only neighbours that join. -/
theorem having_layouts_alike_iff
    (columns : List Column)
    (named : NamedColumns columns)
    (tokens : List HavingToken)
    (valid : ∀ token ∈ tokens, token.Valid columns) :
    LaidOutAlike columns tokens ↔ HavingTokens tokens := by
  constructor
  · intro alike
    exact ⟨alike.present, alike.labelled named valid, alike.joins named valid⟩
  · intro free
    exact free.laidOutAlike named valid

/-- A column of quantities. -/
def layoutColumns : List Column := [⟨"quant", .int⟩]

theorem named_layoutColumns : NamedColumns layoutColumns := by
  intro column member
  rw [List.mem_singleton.mp member]
  decide

/-- `sum_quant > 5 and 2_avg_quant`. -/
def labelledTokens : List HavingToken :=
  [.aggregate .lower ⟨none, .sum, "quant"⟩, .symbol .gt, .constant 5, .and,
    .aggregate .lower ⟨some 2, .avg, "quant"⟩]

theorem valid_aggregate_layout
    {letterCase : LetterCase}
    {term : AggregateTerm}
    (column : term.column = "quant")
    (small : term.group < 2 ^ 31) :
    (HavingToken.aggregate letterCase term).Valid layoutColumns := by
  refine ⟨⟨_, List.mem_singleton_self _, column.symm⟩, ?_, small⟩
  rw [column]
  decide

theorem having_layouts_alike_labelled :
    (∀ token ∈ labelledTokens, token.Valid layoutColumns) ∧
      LaidOutAlike layoutColumns labelledTokens := by
  have valid : ∀ token ∈ labelledTokens, token.Valid layoutColumns := by
    simp only [labelledTokens, List.forall_mem_cons]
    exact ⟨valid_aggregate_layout rfl (by decide), trivial, trivial, trivial,
      valid_aggregate_layout rfl (by decide), List.forall_mem_nil _⟩
  have free : HavingTokens labelledTokens :=
    { present := List.cons_ne_nil _ _
      labelled := by decide
      joins := by decide }
  exact ⟨valid, (having_layouts_alike_iff layoutColumns named_layoutColumns labelledTokens
    valid).mpr free⟩

/-- `avg_quant > 5`. -/
def averageTokens : List HavingToken :=
  [.aggregate .lower ⟨none, .avg, "quant"⟩, .symbol .gt, .constant 5]

/-- With two spaces in front of it the average is emitted without its method
call. -/
theorem spaced_average_not_called :
    (∀ token ∈ averageTokens, token.Valid layoutColumns) ∧
      (havingGenerator layoutColumns "avg_quant > 5").parseHaving =
        some "data0->at(pos)->avg_quant.value() > 5" ∧
      (havingGenerator layoutColumns "  avg_quant > 5").parseHaving =
        some " data0->at(pos)-> avg_quant > 5" ∧
      ¬LaidOutAlike layoutColumns averageTokens := by
  have tight : (havingGenerator layoutColumns "avg_quant > 5").parseHaving =
      some "data0->at(pos)->avg_quant.value() > 5" := by decide +kernel
  have wide : (havingGenerator layoutColumns "  avg_quant > 5").parseHaving =
      some " data0->at(pos)-> avg_quant > 5" := by decide +kernel
  refine ⟨?_, tight, wide, ?_⟩
  · simp only [averageTokens, List.forall_mem_cons]
    exact ⟨valid_aggregate_layout rfl (by decide), trivial, trivial, List.forall_mem_nil _⟩
  · rintro ⟨cpp, all⟩
    obtain ⟨first, parsedFirst, lexedFirst⟩ := all
      ⟨[(0, .aggregate .lower ⟨none, .avg, "quant"⟩), (1, .symbol .gt), (1, .constant 5)], 0,
        by simp [Separated]⟩ rfl (havingGenerator layoutColumns "avg_quant > 5") rfl (by decide)
    obtain ⟨second, parsedSecond, lexedSecond⟩ := all
      ⟨[(2, .aggregate .lower ⟨none, .avg, "quant"⟩), (1, .symbol .gt), (1, .constant 5)], 0,
        by simp [Separated]⟩ rfl (havingGenerator layoutColumns "  avg_quant > 5") rfl (by decide)
    cases Option.some.inj (tight.symm.trans parsedFirst)
    cases Option.some.inj (wide.symm.trans parsedSecond)
    exact absurd (lexedFirst.trans lexedSecond.symm) (by decide +kernel)

end MfQuery
