import MfQuery.Meaning.Source
import MfQuery.Program.Connectives

/-!
# Such-that lines and their guards

The guard of a scan is emitted as C++ text. For lines that compare columns
with literals in an operator the translation keeps, the guard of an MF scan is
the meaning of the line on the scanned row. An EMF scan tests the kept row
where the line speaks of the scanned one. That does not matter for comparisons
of a column with itself, nor for a literal whose column the same conjunction
equates in both rows.
-/

namespace MfQuery

open Text

/-! ## Atoms -/

/-- Rows store 64-bit integers and strings in the columns of these types. -/
def Conforms (columns : List Column) (row : Row) : Prop :=
  ∀ column ∈ columns, column.ctype = .int64 ∨ column.ctype = .string →
    Stored column.ctype (row column.name)

/-- The atom compares a column with a literal of its type, in an operator that
the translation keeps. -/
def Atom.Literal (columns : List Column) (atom : Atom) : Prop :=
  ∃ column ∈ columns, column.name = atom.column ∧ LiteralFor columns column atom.value ∧
    contains atom.column "avg" = false ∧ OperatorKept atom.operator atom.value

/-- The atom compares a column with the grouping attribute of the same name,
in an operator that does not mind the order of its operands. -/
structure Atom.OfItself (columns : List Column) (atom : Atom) : Prop where
  value_eq : atom.value = .attr atom.column
  symmetric : atom.operator.Symmetric
  typed : ∃ column ∈ columns, column.name = atom.column ∧
    (column.ctype = .int64 ∨ column.ctype = .string)
  noAverage : contains atom.column "avg" = false

section Atoms

variable {columns : List Column} {atom : Atom} {env : Env} {here there : Row}

theorem exists_str_of_stored
    {content : Value}
    (stored : Stored .string content) :
    ∃ text, content = .str text := by
  cases content with
  | str text => exact ⟨text, rfl⟩
  | zero => exact stored.elim
  | int value => exact stored.elim
  | avg count sum => exact stored.elim

/-- A literal is compared with the column of the row of `it`. -/
theorem Atom.Literal.tells
    (literal : atom.Literal columns)
    (conforms : Conforms columns here)
    (bound : env.rows .it = some here)
    (other : Row) :
    Cpp.Tells env atom.expr (some (atom.meets other here)) := by
  obtain ⟨column, inTable, name, isLiteral, noAverage, kept⟩ := literal
  have left := eval_operand noAverage bound
  cases value : atom.value with
  | int number =>
      rw [value] at isLiteral kept
      have type : column.ctype = .int64 := isLiteral
      have stored := conforms column inTable (.inl type)
      rw [type, name] at stored
      obtain ⟨content, isContent, -⟩ := exists_int_of_stored stored
      have leftNum : (Val.cell (here atom.column) none).asNum = some (true, content) := by
        rw [isContent]
        rfl
      refine ⟨some (.bool (atom.operator.holds content number)), fun vectors => ?_, ?_⟩
      · have compared := eval_binOp (left vectors) atom.operator (integerExpr number)
        obtain ⟨wide, right⟩ := eval_integer kept env vectors
        have applied := atom.operator.apply_binOp leftNum
          (rfl : (Val.num wide number).asNum = some (wide, number))
        simp only [Atom.expr, value, compared, right, Option.bind_some, applied, Option.map_some]
      · simp only [Atom.meets, value, AtomValue.meant, isContent, CmpOp.compares]
        rfl
  | str text =>
      rw [value] at isLiteral kept
      obtain ⟨type, -⟩ := isLiteral
      have stored := conforms column inTable (.inr type)
      rw [type, name] at stored
      obtain ⟨content, isContent⟩ := exists_str_of_stored stored
      refine ⟨some (.bool (decide (content = text))), fun vectors => ?_, ?_⟩
      · have cell := left vectors
        rw [isContent] at cell
        simp only [Atom.expr, value, eval_compareString cell text, Option.map_some]
      · simp only [Atom.meets, value, AtomValue.meant, isContent, CmpOp.compares,
          ← (equality_iff_holds atom.operator text).mpr kept content]
        rfl
  | attr name =>
      rw [value] at isLiteral
      exact isLiteral.elim
  | shifted name sign constant =>
      rw [value] at isLiteral
      exact isLiteral.elim

/-- A literal means the same for every group. -/
theorem Atom.Literal.meets_eq
    (literal : atom.Literal columns)
    (kept other row : Row) :
    atom.meets kept row = atom.meets other row := by
  obtain ⟨column, -, -, isLiteral, -⟩ := literal
  unfold Atom.meets
  cases value : atom.value with
  | int number => rfl
  | str text => rfl
  | attr name =>
      rw [value] at isLiteral
      exact isLiteral.elim
  | shifted name sign constant =>
      rw [value] at isLiteral
      exact isLiteral.elim

/-- A column is compared with itself in the rows of `it` and `xt`. -/
theorem Atom.OfItself.tells
    (ofItself : atom.OfItself columns)
    (conformsHere : Conforms columns here)
    (conformsThere : Conforms columns there)
    (boundIt : env.rows .it = some here)
    (boundXt : env.rows .xt = some there) :
    Cpp.Tells env atom.expr (some (atom.meets here there)) := by
  obtain ⟨column, inTable, name, type⟩ := ofItself.typed
  have left := eval_operand ofItself.noAverage boundIt
  have right := eval_member boundXt atom.column
  have storedHere := conformsHere column inTable type
  have storedThere := conformsThere column inTable type
  have shape : atom.expr = .binary atom.operator.binOp (operandExpr atom.column)
      (Cpp.Parser.memberExpr Iter.xt.name atom.column) := by
    simp only [Atom.expr, ofItself.value_eq]
  have meets : atom.meets here there =
      atom.operator.compares (there atom.column) (here atom.column) := by
    simp only [Atom.meets, ofItself.value_eq, AtomValue.meant]
  rw [name] at storedHere storedThere
  have applied : atom.operator.binOp.apply (.cell (here atom.column) none)
      (.cell (there atom.column) none) =
        some (.bool (atom.operator.compares (there atom.column) (here atom.column))) := by
    rcases type with isInt | isString
    · rw [isInt] at storedHere storedThere
      obtain ⟨first, isFirst, -⟩ := exists_int_of_stored storedHere
      obtain ⟨second, isSecond, -⟩ := exists_int_of_stored storedThere
      rw [isFirst, isSecond, atom.operator.apply_binOp rfl rfl,
        ofItself.symmetric.comm]
      rfl
    · rw [isString] at storedHere storedThere
      obtain ⟨first, isFirst⟩ := exists_str_of_stored storedHere
      obtain ⟨second, isSecond⟩ := exists_str_of_stored storedThere
      rw [isFirst, isSecond]
      rcases ofItself.symmetric with isEq | isNe | isDiamond
      · rw [isEq]
        simp [CmpOp.binOp, Cpp.BinOp.apply, Val.asNum, Val.asText, Cpp.BinOp.compareText,
          CmpOp.compares, CmpOp.holds, eq_comm]
      · rw [isNe]
        simp [CmpOp.binOp, Cpp.BinOp.apply, Val.asNum, Val.asText, Cpp.BinOp.compareText,
          CmpOp.compares, CmpOp.holds, eq_comm]
      · rw [isDiamond]
        simp [CmpOp.binOp, Cpp.BinOp.apply, Val.asNum, Val.asText, Cpp.BinOp.compareText,
          CmpOp.compares, CmpOp.holds, eq_comm]
  refine ⟨some (.bool (atom.meets here there)), fun vectors => ?_, rfl⟩
  rw [shape, eval_binOp (left vectors), right vectors, Option.bind_some, applied, meets]

/-- Rows that satisfy an equality of a column with itself agree in it. -/
theorem Atom.OfItself.eq_of_meets
    (ofItself : atom.OfItself columns)
    (equality : atom.operator = .eq)
    (holds : atom.meets here there = true) :
    there atom.column = here atom.column := by
  simp only [Atom.meets, ofItself.value_eq, AtomValue.meant, equality] at holds
  cases first : there atom.column with
  | int number =>
      cases second : here atom.column <;> simp_all [CmpOp.compares, CmpOp.holds]
  | str text =>
      cases second : here atom.column <;> simp_all [CmpOp.compares, CmpOp.holds]
  | zero => simp [first, CmpOp.compares] at holds
  | avg count sum => simp [first, CmpOp.compares] at holds

end Atoms

/-! ## Lines -/

section Lines

variable {columns : List Column} {line : Line} {env : Env} {truth : Atom → Bool}

theorem Line.holds_eq_lineValue
    (line : Line)
    (truth : Atom → Bool) :
    line.holds truth = lineValue sqlBinds (truth line.first)
      (line.rest.map fun entry => (entry.1, truth entry.2)) := by
  rw [Line.holds, lineValue, List.map_map]
  rfl

theorem Line.holds_congr
    {other : Atom → Bool}
    (same : ∀ atom ∈ line.atoms, truth atom = other atom) :
    line.holds truth = line.holds other := by
  rw [Line.holds_eq_lineValue, Line.holds_eq_lineValue, same line.first (List.mem_cons_self ..)]
  congr 1
  apply List.map_congr_left
  intro entry member
  rw [same entry.2 (List.mem_cons_of_mem _ (List.mem_map_of_mem member))]

/-- Every connective of the line is `and`. -/
def Line.Conjunction (line : Line) : Prop := ∀ entry ∈ line.rest, entry.1 = .and

theorem Line.Conjunction.holds_eq
    (conjunction : line.Conjunction)
    (truth : Atom → Bool) :
    line.holds truth = line.atoms.all truth := by
  have steps : ∀ (rest : List (Connective × Atom)) (tight : Bool),
      (∀ entry ∈ rest, entry.1 = .and) →
        sqlTotal ((rest.map fun entry => (entry.1, truth entry.2)).foldl sqlStep
          ⟨false, false, tight⟩) = (tight && (rest.map Prod.snd).all truth) := by
    intro rest
    induction rest with
    | nil => simp [sqlTotal]
    | cons entry rest inductionHypothesis =>
        intro tight isAnd
        obtain ⟨connective, atom⟩ := entry
        obtain rfl : connective = .and := isAnd _ (List.mem_cons_self ..)
        have later := inductionHypothesis (tight && truth atom) fun other member =>
          isAnd other (List.mem_cons_of_mem _ member)
        simpa [sqlStep, Bool.and_assoc] using later
  rw [Line.holds_eq_lineValue, lineValue_sql, steps line.rest _ conjunction, Line.atoms,
    List.all_cons]

/-- A line that does not mix `and` and `xor` tells what it means. -/
theorem Line.tells_of_unmixed
    (isUnmixed : unmixed none (line.rest.map Prod.fst) = true)
    (each : ∀ atom ∈ line.atoms, Cpp.Tells env atom.expr (some (truth atom))) :
    Cpp.Tells env line.expr (some (line.holds truth)) := by
  have told := Line.tells_expr each
  have succeeds : ∀ operator left right leftTruth rightTruth, IsConnective operator →
      left = some leftTruth → right = some rightTruth →
        logicalNode operator left right =
          some (connectiveNode operator leftTruth rightTruth) := by
    rintro operator _ _ leftTruth rightTruth ⟨connective, rfl⟩ rfl rfl
    cases connective <;> cases leftTruth <;> rfl
  have defined : Precedence.chain logicalNode Cpp.BinOp.binds [] (some (truth line.first))
      (line.rest.map fun entry => (entry.1.operator, some (truth entry.2))) =
        some (lineValue Cpp.BinOp.binds (truth line.first)
          (line.rest.map fun entry => (entry.1, truth entry.2))) := by
    refine Precedence.related_chain succeeds Cpp.BinOp.binds ?_ .nil rfl
    rw [List.forall₂_map_left_iff, List.map_map, List.forall₂_map_right_iff, List.forall₂_same]
    exact fun entry _ => ⟨rfl, ⟨entry.1, rfl⟩, rfl⟩
  have agree := (lineValue_agree_iff (line.rest.map Prod.fst)).mpr isUnmixed (truth line.first)
    (line.rest.map fun entry => (entry.1, truth entry.2)) (by rw [List.map_map]; rfl)
  rw [defined, agree, ← Line.holds_eq_lineValue] at told
  exact told

/-- A line of an MF query: its atoms compare columns with literals. -/
structure Line.Plain (columns : List Column) (line : Line) : Prop where
  unmixed : unmixed none (line.rest.map Prod.fst) = true
  literal : ∀ atom ∈ line.atoms, atom.Literal columns

/-- A line of an EMF query that survives the exchange of the two rows: its
atoms compare columns with themselves; in a conjunction they may also compare
with a literal a column that the conjunction equates with itself. -/
structure Line.Exchangeable (columns : List Column) (line : Line) : Prop where
  unmixed : unmixed none (line.rest.map Prod.fst) = true
  atom : ∀ atom ∈ line.atoms, atom.OfItself columns ∨
    atom.Literal columns ∧ line.Conjunction ∧ ∃ equated ∈ line.atoms,
      equated.OfItself columns ∧ equated.operator = .eq ∧ equated.column = atom.column

theorem Line.Plain.tells
    (plain : line.Plain columns)
    {row : Row}
    (conforms : Conforms columns row)
    (bound : env.rows .it = some row) :
    Cpp.Tells env line.expr (some (line.meets row row)) :=
  Line.tells_of_unmixed plain.unmixed fun atom member =>
    (plain.literal atom member).tells conforms bound row

theorem Line.Plain.meets_eq
    (plain : line.Plain columns)
    (kept other row : Row) :
    line.meets kept row = line.meets other row :=
  Line.holds_congr fun atom member => (plain.literal atom member).meets_eq kept other row

/-- What the guard of an EMF scan finds for an atom: literals are compared with
the kept row. -/
def Atom.exchanged (atom : Atom) (kept row : Row) : Bool :=
  match atom.value with
  | .int _ | .str _ => atom.meets kept kept
  | .attr _ | .shifted _ _ _ => atom.meets kept row

theorem Atom.Literal.exchanged_eq
    {atom : Atom}
    (literal : atom.Literal columns)
    (kept row : Row) :
    atom.exchanged kept row = atom.meets kept kept := by
  obtain ⟨column, -, -, isLiteral, -⟩ := literal
  unfold Atom.exchanged
  cases value : atom.value with
  | int number => rfl
  | str text => rfl
  | attr name =>
      rw [value] at isLiteral
      exact isLiteral.elim
  | shifted name sign constant =>
      rw [value] at isLiteral
      exact isLiteral.elim

theorem Atom.OfItself.exchanged_eq
    {atom : Atom}
    (ofItself : atom.OfItself columns)
    (kept row : Row) :
    atom.exchanged kept row = atom.meets kept row := by
  simp only [Atom.exchanged, ofItself.value_eq]

/-- The exchange of the rows does not change the line. -/
theorem Line.Exchangeable.holds_exchanged
    (exchangeable : line.Exchangeable columns)
    (kept row : Row) :
    line.holds (fun atom => atom.exchanged kept row) = line.meets kept row := by
  by_cases agree : ∀ atom ∈ line.atoms, atom.exchanged kept row = atom.meets kept row
  · exact Line.holds_congr agree
  · push Not at agree
    obtain ⟨atom, member, different⟩ := agree
    rcases exchangeable.atom atom member with ofItself | ⟨literal, conjunction, equated, inLine,
      ofItself, equality, sameColumn⟩
    · exact absurd (ofItself.exchanged_eq kept row) different
    · -- the literal is decided differently in the two rows, so the equation fails
      have fails : equated.meets kept row = false := by
        rw [Bool.eq_false_iff]
        intro holds
        have equal := ofItself.eq_of_meets equality holds
        rw [sameColumn] at equal
        refine different ?_
        rw [literal.exchanged_eq, Atom.meets, Atom.meets, equal]
      have exchangedFails : equated.exchanged kept row = false := by
        rw [ofItself.exchanged_eq, fails]
      rw [Line.meets, conjunction.holds_eq, conjunction.holds_eq,
        List.all_eq_false.mpr ⟨equated, inLine, by simp [exchangedFails]⟩,
        List.all_eq_false.mpr ⟨equated, inLine, by simp [fails]⟩]

theorem Line.Exchangeable.tells
    (exchangeable : line.Exchangeable columns)
    {kept row : Row}
    (conformsKept : Conforms columns kept)
    (conformsRow : Conforms columns row)
    (boundIt : env.rows .it = some kept)
    (boundXt : env.rows .xt = some row) :
    Cpp.Tells env line.expr (some (line.meets kept row)) := by
  rw [← exchangeable.holds_exchanged]
  refine Line.tells_of_unmixed exchangeable.unmixed fun atom member => ?_
  rcases exchangeable.atom atom member with ofItself | ⟨literal, -⟩
  · rw [ofItself.exchanged_eq]
    exact ofItself.tells conformsKept conformsRow boundIt boundXt
  · rw [literal.exchanged_eq]
    exact literal.tells conformsKept boundIt kept

end Lines

/-! ## Guards -/

/-- The meaning of the guards of a query, on the rows of the loops. -/
def Source.guards (source : Source) : Guards where
  admits i _ rows := match i, rows .it, rows .xt with
    | 0, _, _ => true
    | i + 1, some kept, some row =>
        (source.lines[i]?.map fun line => line.meets kept row).getD false
    | i + 1, some row, none => (source.lines[i]?.map fun line => line.meets row row).getD false
    | _ + 1, none, _ => false
  reads_smaller _ _ _ _ _ := rfl
  zero _ _ := rfl

end MfQuery
