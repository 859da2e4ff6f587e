import MfQuery.Meaning.Laws

/-!
# Queries that print the same

An MF query compares the keys of the scanned row and of the group before its
line is tested. The same query can be written as an EMF query whose lines
equate every grouping attribute with itself. Where the lines are conjunctions
of literals on grouping attributes, the two programs print the same: the nested
loops of the EMF scan find the rows that the MF scan looks up by key. Grouping
variables and aggregates that nothing asks for can be left out as well.
-/

namespace MfQuery

open Text

/-! ## Lines that equate the keys -/

/-- `attr = attr`. -/
def keyAtom (group : Nat) (attr : Text) : Atom := ⟨group, attr, .eq, .attr attr⟩

/-- The line with an equation for every grouping attribute. -/
def Line.keyed (groupingAttr : List Text) (line : Line) : Line where
  first := line.first
  rest := line.rest ++ groupingAttr.map fun attr => (.and, keyAtom line.first.group attr)

/-- The line is a conjunction of literals on grouping attributes. -/
structure Line.OnKeys (columns : List Column) (groupingAttr : List Text) (line : Line) : Prop where
  conjunction : line.Conjunction
  literal : ∀ atom ∈ line.atoms, atom.Literal columns ∧ atom.column ∈ groupingAttr

/-- The grouping attributes are compared at their own types. -/
def KeysTyped (columns : List Column) (groupingAttr : List Text) : Prop :=
  ∀ attr ∈ groupingAttr, contains attr "avg" = false ∧ ∃ column ∈ columns, column.name = attr ∧
    (column.ctype = .int64 ∨ column.ctype = .string)

theorem Line.Conjunction.unmixed
    {line : Line}
    (conjunction : line.Conjunction) :
    unmixed none (line.rest.map Prod.fst) = true := by
  have words : ∀ (rest : List Connective) (seen : Option Connective),
      (∀ word ∈ rest, word = .and) → seen = none ∨ seen = some .and →
        MfQuery.unmixed seen rest = true := by
    intro rest
    induction rest with
    | nil => exact fun _ _ _ => rfl
    | cons word rest inductionHypothesis =>
        intro seen ands isSeen
        obtain rfl := ands word (List.mem_cons_self ..)
        have later := inductionHypothesis (some .and)
          (fun other member => ands other (List.mem_cons_of_mem _ member)) (.inr rfl)
        rcases isSeen with rfl | rfl
        · exact later
        · simpa [MfQuery.unmixed] using later
  refine words _ none (fun word member => ?_) (.inl rfl)
  obtain ⟨entry, inRest, rfl⟩ := List.mem_map.mp member
  exact conjunction entry inRest

section Lines

variable {columns : List Column} {groupingAttr : List Text} {line : Line}

theorem Line.atoms_keyed :
    (line.keyed groupingAttr).atoms =
      line.atoms ++ groupingAttr.map (keyAtom line.first.group) := by
  simp only [Line.atoms, Line.keyed, List.map_append, List.map_map, List.cons_append]
  rfl

theorem Line.Conjunction.keyed
    (conjunction : line.Conjunction) :
    (line.keyed groupingAttr).Conjunction := by
  intro entry member
  rcases List.mem_append.mp member with inLine | isKey
  · exact conjunction entry inLine
  · obtain ⟨attr, -, rfl⟩ := List.mem_map.mp isKey
    rfl

theorem KeysTyped.ofItself
    (typed : KeysTyped columns groupingAttr)
    {attr : Text}
    (member : attr ∈ groupingAttr)
    (group : Nat) :
    (keyAtom group attr).OfItself columns where
  value_eq := rfl
  symmetric := .inl rfl
  typed := (typed attr member).2
  noAverage := (typed attr member).1

theorem Line.OnKeys.plain
    (onKeys : line.OnKeys columns groupingAttr) :
    line.Plain columns :=
  ⟨onKeys.conjunction.unmixed, fun atom member => (onKeys.literal atom member).1⟩

theorem Line.WellFormed.keyed
    (wellFormed : line.WellFormed columns)
    (typed : KeysTyped columns groupingAttr) :
    (line.keyed groupingAttr).WellFormed columns := by
  have first := wellFormed.atoms line.first (List.mem_cons_self ..)
  constructor
  · intro atom member
    rw [Line.atoms_keyed, List.mem_append] at member
    rcases member with inLine | isKey
    · exact wellFormed.atoms atom inLine
    · obtain ⟨attr, inAttrs, rfl⟩ := List.mem_map.mp isKey
      obtain ⟨-, column, inTable, name, -⟩ := typed attr inAttrs
      exact ⟨first.group_lt, ⟨column, inTable, name⟩, column, inTable, name⟩
  · intro atom member
    rw [Line.atoms_keyed, List.mem_append] at member
    rcases member with inLine | isKey
    · exact wellFormed.spaceless atom inLine
    · obtain ⟨attr, -, rfl⟩ := List.mem_map.mp isKey
      exact trivial

section Keyed

variable (onKeys : line.OnKeys columns groupingAttr) (typed : KeysTyped columns groupingAttr)
include onKeys typed

theorem Line.OnKeys.exchangeable : (line.keyed groupingAttr).Exchangeable columns where
  unmixed := onKeys.conjunction.keyed.unmixed
  atom := by
    intro atom member
    rw [Line.atoms_keyed, List.mem_append] at member
    rcases member with inLine | isKey
    · obtain ⟨literal, isKey⟩ := onKeys.literal atom inLine
      refine .inr ⟨literal, onKeys.conjunction.keyed, keyAtom line.first.group atom.column, ?_,
        typed.ofItself isKey _, rfl, rfl⟩
      rw [Line.atoms_keyed]
      exact List.mem_append_right _ (List.mem_map_of_mem isKey)
    · obtain ⟨attr, inAttrs, rfl⟩ := List.mem_map.mp isKey
      exact .inl (typed.ofItself inAttrs _)

/-- For rows of the table the equations say that the keys are the same. -/
theorem Line.OnKeys.meets_keyed
    {row : Row}
    (conforms : Conforms columns row)
    (kept : Row) :
    (line.keyed groupingAttr).meets kept row =
      (decide (keyOf groupingAttr row = keyOf groupingAttr kept) && line.meets kept row) := by
  have equation : ∀ attr ∈ groupingAttr, ∀ group,
      ((keyAtom group attr).meets kept row = true ↔ row attr = kept attr) := by
    intro attr member group
    refine ⟨(typed.ofItself member group).eq_of_meets rfl, fun same => ?_⟩
    obtain ⟨-, column, inTable, name, type⟩ := typed attr member
    have stored := conforms column inTable type
    rw [name] at stored
    change CmpOp.eq.compares (row attr) (kept attr) = true
    rw [← same]
    rcases type with isInt | isString
    · rw [isInt] at stored
      obtain ⟨number, content, -⟩ := exists_int_of_stored stored
      simp [content, CmpOp.compares, CmpOp.holds]
    · rw [isString] at stored
      obtain ⟨text, content⟩ := exists_str_of_stored stored
      simp [content, CmpOp.compares, CmpOp.holds]
  rw [Bool.eq_iff_iff, Bool.and_eq_true, decide_eq_true_eq, Line.meets, Line.meets,
    onKeys.conjunction.keyed.holds_eq, onKeys.conjunction.holds_eq, Line.atoms_keyed,
    List.all_append, Bool.and_eq_true, and_comm, List.all_map]
  refine and_congr_left fun _ => ?_
  rw [List.all_eq_true, keyOf, keyOf, List.map_inj_left]
  exact forall₂_congr fun attr member => equation attr member _

end Keyed

end Lines

/-! ## The EMF query -/

/-- The query in EMF form. -/
def Source.keyed (source : Source) : Source :=
  { source with
    lines := source.lines.map (Line.keyed source.groupingAttr)
    emf := true }

/-- The result of a group depends on the rows of the grouping variables of the
F-vector. -/
theorem Source.Valid.result_congr
    {source : Source}
    (valid : source.Valid)
    {rows others : Nat → List Row}
    (same : ∀ term ∈ source.fVect, rows term.group = others term.group)
    (kept : Row) :
    source.grouping.result kept rows = source.grouping.result kept others := by
  have values : ∀ term, term.In source.fVect →
      term.value rows = AggregateTerm.value term others := by
    intro term isIn
    obtain ⟨entry, member, -, -, -, group⟩ := isIn.exists_entry
    rw [AggregateTerm.value, AggregateTerm.value, ← group, same entry member]
  have accepts := valid.accepts_congr values
  have shown := valid.shown_congr values kept
  simp only [Source.grouping, accepts, shown]

section Source

variable {source : Source} (valid : source.Valid)
  (onKeys : ∀ line ∈ source.lines, line.OnKeys source.columns source.groupingAttr)
  (noAverage : ∀ attr ∈ source.groupingAttr, contains attr "avg" = false)
include valid noAverage

theorem Source.Valid.keysTyped : KeysTyped source.columns source.groupingAttr := by
  intro attr member
  obtain ⟨column, found, name, type⟩ := valid.keys attr member
  exact ⟨noAverage attr member, column, List.mem_of_find?_eq_some found, name, type⟩

theorem Source.Valid.keyed : source.keyed.Valid where
  named := valid.named
  plain := valid.plain
  few := by
    rw [Source.keyed, List.length_map]
    exact valid.few
  keys := valid.keys
  grouped := valid.grouped
  select := by
    rw [Source.keyed, List.length_map]
    exact valid.select
  fVect := by
    rw [Source.keyed, List.length_map]
    exact valid.fVect
  distinct := valid.distinct
  selected := valid.selected
  lines := by
    intro line member
    obtain ⟨written, inLines, rfl⟩ := List.mem_map.mp member
    exact (valid.lines written inLines).keyed (valid.keysTyped noAverage)
  having := valid.having

include onKeys

/-- The rows of a grouping variable are the same in both forms. -/
theorem Source.rows_keyed
    (mf : source.emf = false)
    {table : List Row}
    (conforms : ∀ row ∈ table, Conforms source.columns row)
    (kept : Row)
    {i : Nat}
    (ofVariable : i ≠ 0) :
    source.keyed.rows table kept i = source.rows table kept i := by
  obtain ⟨i, rfl⟩ := Nat.exists_eq_succ_of_ne_zero ofVariable
  apply List.filter_congr
  intro row member
  simp only [Source.selects, Source.keyed, Bool.true_or, Bool.true_and, mf, Bool.false_or,
    List.getElem?_map]
  cases found : source.lines[i]? with
  | none => simp
  | some line =>
      simp only [Option.map_some, Option.getD_some]
      exact (onKeys line (List.mem_of_getElem? found)).meets_keyed (valid.keysTyped noAverage)
        (conforms row member) kept

section Table

variable (mf : source.emf = false) (ofVariables : ∀ term ∈ source.fVect, term.group ≠ 0)
  {table : List Row} (fits : source.Fits table)
include mf ofVariables fits

theorem Source.Fits.keyed : source.keyed.Fits table where
  few := fits.few
  conforms := fits.conforms
  integers := fits.integers
  fits kept isKept term member := by
    rw [source.rows_keyed valid onKeys noAverage mf fits.conforms kept (ofVariables term member)]
    exact fits.fits kept isKept term member
  exact kept isKept formula written := by
    refine valid.exactOn_congr (fun term isIn => ?_) written
      (fits.exact kept isKept formula written)
    obtain ⟨entry, member, -, -, -, group⟩ := isIn.exists_entry
    rw [AggregateTerm.value, AggregateTerm.value, ← group,
      source.rows_keyed valid onKeys noAverage mf fits.conforms kept (ofVariables entry member)]

theorem Source.answer_keyed : source.keyed.answer table = source.answer table := by
  refine Grouping.answer_congr rfl fun kept _ => ?_
  refine valid.result_congr (fun term member => ?_) kept
  exact source.rows_keyed valid onKeys noAverage mf fits.conforms kept (ofVariables term member)

end Table

end Source

/-- The sales of A. -/
def lineOfA : Line := ⟨⟨1, "cust", .eq, .str "A"⟩, []⟩

/-- The query with more grouping variables and more aggregates, which neither the
select list nor HAVING asks for. -/
def Source.widened (source : Source) (lines : List Line) (terms : List AggregateTerm) : Source :=
  { source with lines := source.lines ++ lines, fVect := source.fVect ++ terms }

/-- More lines and more aggregates a query can have. -/
structure Source.Widening
    (source : Source)
    (lines : List Line)
    (terms : List AggregateTerm) : Prop where
  few : (source.lines ++ lines).length < 2 ^ 31
  wellFormed : ∀ line ∈ lines, line.WellFormed source.columns
  valid : ∀ term ∈ terms, term.Valid source.columns (source.lines ++ lines).length
  distinct : ((source.fVect ++ terms).map (AggregateTerm.aggregate .lower)).Nodup
  mf : source.emf = false → ∀ line ∈ lines, line.Plain source.columns
  emf : source.emf = true → (∀ line ∈ lines, line.Exchangeable source.columns) ∧
    ∀ term ∈ terms, term.group ≠ 0

section Widened

variable {source : Source} {lines : List Line} {terms : List AggregateTerm}

theorem AggregateTerm.Valid.mono
    {columns : List Column}
    {n more : Nat}
    (le : n ≤ more)
    {term : AggregateTerm}
    (valid : term.Valid columns n) :
    term.Valid columns more :=
  ⟨valid.column_mem, valid.group_le.trans le⟩

theorem AggregateTerm.In.append
    {fVect : List AggregateTerm}
    {term : AggregateTerm}
    (isIn : term.In fVect) :
    term.In (fVect ++ terms) := by
  rw [AggregateTerm.In, List.map_append]
  exact List.mem_append_left _ isIn

theorem Source.Valid.widened
    (valid : source.Valid)
    (widening : source.Widening lines terms) :
    (source.widened lines terms).Valid := by
  have more : source.lines.length ≤ (source.lines ++ lines).length := by simp
  refine ⟨valid.named, valid.plain, widening.few, valid.keys, valid.grouped, ?_, ?_,
    widening.distinct, fun term member => (valid.selected term member).append, ?_, ?_⟩
  · intro entry member
    have entryValid := valid.select entry member
    cases entry with
    | column name => exact entryValid
    | aggregate term => exact AggregateTerm.Valid.mono more entryValid
  · intro term member
    rcases List.mem_append.mp member with inF | inTerms
    · exact (valid.fVect term inF).mono more
    · exact widening.valid term inTerms
  · intro line member
    rcases List.mem_append.mp member with inSource | inLines
    · exact valid.lines line inSource
    · exact widening.wellFormed line inLines
  · intro formula written
    obtain ⟨agree, leaves⟩ := valid.having formula written
    refine ⟨agree, Precedence.Formula.All.imp (fun leaf isOver => ?_) leaves⟩
    cases leaf with
    | constant value => exact trivial
    | aggregate letterCase term => exact ⟨isOver.1, isOver.2.append⟩

theorem Source.Supported.widened
    (supported : source.Supported)
    (widening : source.Widening lines terms) :
    (source.widened lines terms).Supported where
  valid := supported.valid.widened widening
  mf mode line member := by
    rcases List.mem_append.mp member with inSource | inLines
    · exact supported.mf mode line inSource
    · exact widening.mf mode line inLines
  emf mode := by
    obtain ⟨exchangeable, ofVariables⟩ := supported.emf mode
    obtain ⟨moreExchangeable, moreOfVariables⟩ := widening.emf mode
    refine ⟨fun line member => ?_, fun term member => ?_⟩
    · rcases List.mem_append.mp member with inSource | inLines
      · exact exchangeable line inSource
      · exact moreExchangeable line inLines
    · rcases List.mem_append.mp member with inF | inTerms
      · exact ofVariables term inF
      · exact moreOfVariables term inTerms

/-- The rows of the first grouping variables stay the same. -/
theorem Source.selects_widened
    {i : Nat}
    (inRange : i ≤ source.lines.length) :
    (source.widened lines terms).selects i = source.selects i := by
  cases i with
  | zero => rfl
  | succ i =>
      have same : (source.lines ++ lines)[i]? = source.lines[i]? :=
        List.getElem?_append_left (by omega)
      funext kept row
      simp only [Source.selects, Source.widened, same]
      rfl

theorem Source.rows_widened
    (valid : source.Valid)
    (table : List Row)
    (kept : Row)
    {term : AggregateTerm}
    (member : term ∈ source.fVect) :
    (source.widened lines terms).rows table kept term.group =
      source.rows table kept term.group := by
  rw [Source.rows, Source.rows, Source.selects_widened (valid.fVect term member).group_le]

theorem Source.Fits.of_widened
    (valid : source.Valid)
    {table : List Row}
    (fits : (source.widened lines terms).Fits table) :
    source.Fits table where
  few := fits.few
  conforms := fits.conforms
  integers term member := fits.integers term (List.mem_append_left _ member)
  fits kept isKept term member := by
    have whole := fits.fits kept isKept term (List.mem_append_left _ member)
    rwa [Source.rows_widened valid table kept member] at whole
  exact kept isKept formula written := by
    refine valid.exactOn_congr (fun term isIn => ?_) written
      (fits.exact kept isKept formula written)
    obtain ⟨entry, member, -, -, -, group⟩ := isIn.exists_entry
    rw [AggregateTerm.value, AggregateTerm.value, ← group,
      Source.rows_widened valid table kept member]

theorem Source.answer_widened
    (valid : source.Valid)
    (table : List Row) :
    (source.widened lines terms).answer table = source.answer table := by
  refine Grouping.answer_congr rfl fun kept _ => ?_
  exact valid.result_congr (fun term member => Source.rows_widened valid table kept member) kept

end Widened

end MfQuery
