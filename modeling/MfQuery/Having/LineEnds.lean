import MfQuery.Having.Layout

/-!
# Line ends behind a condition

The HAVING section of a query file keeps the line ends behind its text.
`parse_having` cuts at spaces only, so that they stay in the last token: behind
a symbol or a constant, or inside the name of the last field. C++ reads the
same condition.
-/

namespace MfQuery

open Text

/-- A number of line ends. -/
def lineEnds (count : Nat) : Text := List.replicate count '\n'

theorem lineEnds_succ (count : Nat) : lineEnds (count + 1) = '\n' :: lineEnds count := rfl

theorem eq_newline_of_mem_lineEnds
    {count : Nat}
    {character : Char}
    (member : character ∈ lineEnds count) :
    character = '\n' :=
  (List.mem_replicate.mp member).2

/-! ## Reading line ends -/

/-- A line end ends a token where a space does. -/
theorem Cpp.breaks_newline
    {mode : Cpp.Mode}
    (space : Cpp.breaks mode ' ') :
    Cpp.breaks mode '\n' := by
  cases mode with
  | start => rfl
  | ident name => exact Cpp.breaks_ident (by decide) name
  | number digits => exact Cpp.breaks_number (by decide) (by decide) digits
  | string body => rfl
  | escape body => rfl
  | punct first =>
      apply Cpp.breaks_punct
      simp [Cpp.fusingPairs, Cpp.twoCharacterPuncts]
  | lineComment => rfl
  | blockComment => cases space
  | blockStar => cases space

theorem Cpp.spells_lineEnds (count : Nat) : Cpp.Spells (lineEnds count) [] .start := by
  induction count with
  | zero => exact .of_closed rfl
  | succ count inductionHypothesis =>
      have newline : Cpp.Spells ['\n'] [] .start := .of_closed rfl
      exact newline.append_start inductionHypothesis

theorem Cpp.SpellsWord.lineEnds
    {text : Text}
    {tokens : List Cpp.Token}
    (word : Cpp.SpellsWord text tokens)
    (count : Nat) :
    Cpp.SpellsWord (text ++ lineEnds count) tokens := by
  cases count with
  | zero => simpa [MfQuery.lineEnds] using word
  | succ count =>
      obtain ⟨mode, spells, space⟩ := word
      have whole := spells.append (Cpp.breaks_newline space) (Cpp.spells_lineEnds (count + 1))
      rw [List.append_nil] at whole
      exact ⟨.start, whole, rfl⟩

/-! ## The last token -/

/-- A visible token that is translated to a word for the same tokens, whatever
number of line ends stands behind it. -/
def TranslatesBefore (columns : List Column) (token : Text) (tokens : List Cpp.Token) : Prop :=
  Visible token ∧ ∀ count, ∃ translated,
    ScanGenerator.havingToken columns (token ++ lineEnds count) = some translated ∧
      Cpp.SpellsWord translated tokens

section Tokens

variable {columns : List Column} (named : NamedColumns columns)
include named

/-- Column names have no line ends. -/
theorem isColumn_lineEnds
    (token : Text)
    (count : Nat) :
    Column.isColumn (token ++ lineEnds (count + 1)) columns = false := by
  rw [Bool.eq_false_iff, Ne, Column.isColumn_eq_true]
  rintro ⟨column, member, same⟩
  have newline : '\n' ∈ column.name := by
    rw [← same, lineEnds_succ]
    simp
  exact absurd (identRest_of_mem (isIdent_of_isName (named column member)) newline) (by decide)

/-- A token that is kept as it is is kept with its line ends. -/
theorem TranslatesBefore.of_self
    {token : Text}
    {tokens : List Cpp.Token}
    (noUnderscore : '_' ∉ token)
    (translates : HavingTranslates columns token token)
    (word : Cpp.SpellsWord token tokens) :
    TranslatesBefore columns token tokens := by
  refine ⟨translates.1, fun count => ⟨token ++ lineEnds count, ?_, word.lineEnds count⟩⟩
  cases count with
  | zero =>
      rw [lineEnds, List.replicate_zero, List.append_nil]
      exact translates.2
  | succ count =>
      apply havingToken_self _ (isColumn_lineEnds named token count)
      intro member
      rcases List.mem_append.mp member with inToken | inEnds
      · exact noUnderscore inToken
      · cases eq_newline_of_mem_lineEnds inEnds

omit named in
theorem AggregateTerm.spacedFunc_zero
    (letterCase : LetterCase)
    (term : AggregateTerm) :
    term.spacedFunc letterCase 0 = term.func.text letterCase := by
  rw [AggregateTerm.spacedFunc]
  cases term.label with
  | none => rfl
  | some label => rfl

/-- The line ends behind an aggregate become part of its field, in front of the
call that reads an average. -/
theorem HavingLeaf.translatesBefore
    {leaf : HavingLeaf}
    (valid : leaf.Valid columns) :
    TranslatesBefore columns leaf.text leaf.tokens := by
  have written := valid.written named
  have translates := HavingLeaf.translates named written
  cases leaf with
  | constant value =>
      exact .of_self named (notMem_integerText (by decide) (by decide) value) translates
        (HavingLeaf.spellsWord written)
  | aggregate letterCase term =>
      refine ⟨translates.1, fun count => ?_⟩
      obtain ⟨inTable, plain, small⟩ := valid
      have endsPlain : '_' ∉ lineEnds count := by
        intro member
        cases eq_newline_of_mem_lineEnds member
      have read : ScanGenerator.havingToken columns _ = _ :=
        term.havingToken_spaced (HavingLeaf.isIdent_column named inTable) letterCase plain small 0
          endsPlain
      have place := term.spells_spacedVar named inTable letterCase 0
      refine ⟨_, read, ?_⟩
      have isAvg : (term.aggregate letterCase).isAvg =
          decide (term.func = .avg ∧ (term.label = none → 0 = 0)) := by
        rw [← term.isAvg_spaced letterCase 0 term.column, AggregateTerm.spacedFunc_zero]
        rfl
      rw [HavingLeaf.tokens, isAvg]
      simp only [decide_eq_true_eq]
      split_ifs
      · have value : Cpp.Spells ".value()" [.punct ".", .ident "value", .punct "(", .punct ")"]
            (.punct ')') := .of_closed rfl
        refine .behind place (Cpp.breaks_ident (by decide) _) ?_
          ⟨_, (Cpp.spells_lineEnds count).append_start value, rfl⟩
        intro character head
        cases count with
        | zero =>
            cases head
            exact Cpp.breaks_ident (by decide) _
        | succ count =>
            cases head
            exact Cpp.breaks_ident (by decide) _
      · rw [List.append_nil, List.append_nil]
        exact Cpp.SpellsWord.lineEnds ⟨_, place, Cpp.breaks_ident (by decide) _⟩ count

theorem HavingOp.translatesBefore (operator : HavingOp) :
    TranslatesBefore columns operator.text [.punct operator.symbol] :=
  .of_self named (by cases operator <;> decide) (operator.translates named)
    operator.spellsWord_text

/-! ## The whole condition -/

omit named in
/-- Tokens with line ends behind the last are tokens again, and they are
translated to words for the same C++ tokens. -/
theorem exists_translated_lineEnds
    {pieces : List Text}
    {tokens : List (List Cpp.Token)}
    (translates : List.Forall₂ (TranslatesBefore columns) pieces tokens)
    (present : pieces ≠ [])
    (count : Nat) :
    ∃ ended translated, joinWith ' ' pieces ++ lineEnds count = joinWith ' ' ended ∧
      ended ≠ [] ∧ (∀ token ∈ ended, Visible token) ∧
      ended.mapM (ScanGenerator.havingToken columns) = some translated ∧
      List.Forall₂ Cpp.SpellsWord translated tokens := by
  induction translates with
  | nil => exact absurd rfl present
  | @cons piece spelled pieces others here later inductionHypothesis =>
      obtain ⟨⟨free, character, member, shown⟩, words⟩ := here
      cases later with
      | nil =>
          obtain ⟨translated, read, word⟩ := words count
          refine ⟨[piece ++ lineEnds count], [translated], rfl, by simp, ?_, ?_, .cons word .nil⟩
          · rw [List.forall_mem_singleton]
            refine ⟨fun space => ?_, character, List.mem_append_left _ member, shown⟩
            rcases List.mem_append.mp space with inPiece | inEnds
            · exact free inPiece
            · cases eq_newline_of_mem_lineEnds inEnds
          · simp [read]
      | @cons next nextSpelled rest more nextHere nextLater =>
          obtain ⟨translated, read, word⟩ := words 0
          rw [lineEnds, List.replicate_zero, List.append_nil] at read
          obtain ⟨ended, behind, joined, some, visible, mapped, spells⟩ :=
            inductionHypothesis (by simp)
          obtain ⟨first, others, rfl⟩ := List.exists_cons_of_ne_nil some
          refine ⟨piece :: first :: others, translated :: behind, ?_, by simp, ?_, ?_,
            .cons word spells⟩
          · rw [joinWith, joinWith, ← joined]
            simp
          · rw [List.forall_mem_cons]
            exact ⟨⟨free, character, member, shown⟩, visible⟩
          · rw [List.mapM_cons, read, mapped]
            rfl

/-- C++ reads the condition that is emitted for a HAVING text with line ends
behind it as the condition without them. -/
theorem HavingFormula.parseHaving_lineEnds
    {formula : HavingFormula}
    (valid : formula.Valid columns)
    {generator : ScanGenerator}
    (ofTable : generator.columns = columns)
    {count : Nat}
    (written : generator.having = formula.text ++ lineEnds count) :
    ∃ text, generator.parseHaving = some text ∧ Cpp.read text = some formula.expr := by
  have opening : TranslatesBefore columns "(" [.punct "("] :=
    .of_self named (by decide) (havingTranslates_symbol named (by decide) (by decide)
      ⟨by decide, '(', by decide, by decide⟩) spellsWord_opening
  have closing : TranslatesBefore columns ")" [.punct ")"] :=
    .of_self named (by decide) (havingTranslates_symbol named (by decide) (by decide)
      ⟨by decide, ')', by decide, by decide⟩) spellsWord_closing
  have translates := Precedence.Formula.forall₂_pieces
    (fun leaf leafValid => HavingLeaf.translatesBefore named leafValid)
    (fun operator _ => operator.translatesBefore named) opening closing valid
  obtain ⟨ended, translated, joined, some, visible, mapped, words⟩ :=
    exists_translated_lineEnds translates (formula.pieces_ne_nil _ _ _ _) count
  have fields : Fields ' ' ended :=
    { nonempty := fun token member => by
        obtain ⟨-, character, inside, -⟩ := visible token member
        exact List.ne_nil_of_mem inside
      free := fun token member => (visible token member).1
      visible := fun last isLast => (visible last (List.mem_of_getLast? isLast)).2 }
  have exploded := cExplode_join ' ' ended some fields
  have long : ¬(joinWith ' ' ended).length < 1 := by
    obtain ⟨first, rest, rfl⟩ := List.exists_cons_of_ne_nil some
    have nonempty := joinWith_ne_nil ' ' rest (fields.nonempty first (List.mem_cons_self ..))
    have positive := List.length_pos_iff.mpr nonempty
    omega
  refine ⟨joinWith ' ' translated, ?_, ?_⟩
  · rw [ScanGenerator.parseHaving, written, HavingFormula.text, joined, if_neg long, exploded,
      ofTable]
    simp only [Option.bind_eq_bind, Option.bind_some, mapped]
    rfl
  · have present : translated ≠ [] := by
      rintro rfl
      exact formula.pieces_ne_nil _ _ _ _ (List.forall₂_nil_left_iff.mp words)
    obtain ⟨mode, spells, -⟩ := Cpp.spells_joinWith words present
    have leaves : ∀ leaf : HavingLeaf, leaf.Valid columns →
        Cpp.Parser.ReadsPrefixed leaf.tokens leaf.expr := fun leaf _ => leaf.readsPrefixed
    have operators : ∀ operator : HavingOp, True →
        Cpp.Parser.Infix operator.symbol operator.binOp := fun operator _ => operator.isInfix_symbol
    have reads := Cpp.Parser.readsWhole_formula leaves operators valid []
    rw [Cpp.read, Option.bind_eq_bind, spells.lex_eq]
    exact reads.parse_eq

end Tokens

end MfQuery
