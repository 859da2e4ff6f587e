import MfQuery.Program.Operators
import MfQuery.SuchThat

/-!
# Such-that lines

A such-that line is a sequence of atoms separated by connectives, all written
with single spaces between them. The constructor of `Conditions` cuts it into
its parts again, and the guard `Conditions::toCpp` writes for it is read by a
C++ compiler as the chain of the atoms' expressions. What the chain evaluates
to follows from the truth of the atoms and the precedence of the connectives.
-/

namespace MfQuery

open Text

/-- The connectives of a line. -/
inductive Connective
  | and
  | or
  | xor
  deriving DecidableEq, Repr

namespace Connective

/-- The connective as written. -/
def text : Connective → Text
  | and => ['a', 'n', 'd']
  | or => ['o', 'r']
  | xor => ['x', 'o', 'r']

/-- The C++ operator it is an alternative spelling of. -/
def operator : Connective → Cpp.BinOp
  | and => .and
  | or => .or
  | xor => .xor

theorem logicalWord (connective : Connective) :
    Cpp.LogicalWord connective.text connective.operator := by
  cases connective with
  | and => exact ⟨by decide, "&&", .of_closed rfl, fun _ _ => rfl⟩
  | or => exact ⟨by decide, "||", .of_closed rfl, fun _ _ => rfl⟩
  | xor => exact ⟨by decide, "^", .of_closed rfl, fun _ _ => rfl⟩

end Connective

/-- A line: its first atom, and the others each behind its connective. -/
structure Line where
  first : Atom
  rest : List (Connective × Atom)
  deriving DecidableEq, Repr

namespace Line

/-- The atoms of a line. -/
def atoms (line : Line) : List Atom := line.first :: line.rest.map Prod.snd

/-- The parts of a line in their order. -/
def pieces (first : Text) (rest : List (Connective × Atom)) : List Text :=
  first :: rest.flatMap fun entry => [entry.1.text, entry.2.text]

/-- The line as written. -/
def text (line : Line) : Text := joinWith ' ' (pieces line.first.text line.rest)

/-- The expression read from its translation. -/
def expr (line : Line) : Cpp.Expr :=
  Precedence.chain .binary Cpp.BinOp.binds [] line.first.expr
    (line.rest.map fun entry => (entry.1.operator, entry.2.expr))

/-- The conditions the constructor reads from it. -/
def conditions (line : Line) : Conditions :=
  ⟨line.atoms.map Atom.condition, line.rest.map fun entry => entry.1.text⟩

end Line

/-- String literals inside a line have no spaces. -/
def AtomValue.Spaceless : AtomValue → Prop
  | str text => ' ' ∉ text
  | _ => True

/-- A line over the columns of the table. -/
structure Line.WellFormed (columns : List Column) (line : Line) : Prop where
  atoms : ∀ atom ∈ line.atoms, atom.WellFormed columns
  spaceless : ∀ atom ∈ line.atoms, atom.value.Spaceless

/-! ## Cutting a line into its parts -/

/-- A written atom has no space in it. -/
theorem Atom.space_notMem_text
    {columns : List Column}
    (named : NamedColumns columns)
    {atom : Atom}
    (wellFormed : atom.WellFormed columns)
    (spaceless : atom.value.Spaceless) :
    ' ' ∉ atom.text := by
  have noSpace {name : Text} (isName : Cpp.isName name = true) : ' ' ∉ name :=
    not_mem_of_isIdent (isIdent_of_isName isName) (by decide)
  have inColumn := noSpace (atom.isName_column named wellFormed)
  have inOperator : ' ' ∉ atom.operator.text := by cases atom.operator <;> decide
  have inGroup : ' ' ∉ numeral atom.group := notMem_numeral (by decide) _
  have formed := wellFormed.value
  have inValue : ' ' ∉ atom.value.text := by
    cases shape : atom.value with
    | int value => exact notMem_integerText (by decide) (by decide) value
    | str text =>
        rw [shape] at spaceless
        have free : ' ' ∉ text := spaceless
        simp [AtomValue.text, free]
    | attr name =>
        rw [shape] at formed
        obtain ⟨column, member, rfl⟩ := formed
        exact noSpace (named column member)
    | shifted name sign constant =>
        rw [shape] at formed
        obtain ⟨⟨column, member, rfl⟩, -⟩ := formed
        exact notMem_shifted (noSpace (named column member)) (by decide) (by decide) sign constant
  simp only [Atom.text, atomText, List.mem_append, List.mem_cons, not_or]
  exact ⟨inGroup, by decide, ⟨inColumn, inOperator⟩, inValue⟩

theorem Atom.dot_mem_text (atom : Atom) : '.' ∈ atom.text := by
  simp [Atom.text, atomText]

section Written

variable {Written : Type} {text : Written → Text} {condition : Written → Condition}
  {expr : Written → Cpp.Expr} {first : Written} {rest : List (Connective × Written)}

/-- The parts of a line of written atoms in their order. -/
def linePieces
    (text : Written → Text)
    (first : Written)
    (rest : List (Connective × Written)) : List Text :=
  text first :: rest.flatMap fun entry => [entry.1.text, text entry.2]

theorem linePieces_eq_alternating
    (text : Written → Text)
    (first : Written)
    (rest : List (Connective × Written)) :
    linePieces text first rest =
      alternating (text first) (rest.map fun entry => (entry.1.text, text entry.2)) := by
  simp only [linePieces, alternating, List.flatMap_map]

/-- The constructor recovers the atoms and connectives of a line of written
atoms. -/
theorem Conditions.ofText_linePieces
    (spaceless : ∀ atom ∈ first :: rest.map Prod.snd, ' ' ∉ text atom)
    (dotted : ∀ atom ∈ first :: rest.map Prod.snd, '.' ∈ text atom)
    (read : ∀ atom ∈ first :: rest.map Prod.snd,
      Condition.ofText (text atom) = some (condition atom)) :
    Conditions.ofText (joinWith ' ' (linePieces text first rest)) =
      some ⟨(first :: rest.map Prod.snd).map condition, rest.map fun entry => entry.1.text⟩ := by
  have atoms : text first :: (rest.map fun entry => (entry.1.text, text entry.2)).map Prod.snd =
      (first :: rest.map Prod.snd).map text := by
    simp only [List.map_map, List.map_cons, Function.comp_def]
  have words : (rest.map fun entry => (entry.1.text, text entry.2)).map Prod.fst =
      rest.map fun entry => entry.1.text := by
    simp only [List.map_map, Function.comp_def]
  rw [linePieces_eq_alternating, ← words]
  apply Conditions.ofText_alternating
  · rw [words]
    intro word member
    obtain ⟨entry, -, rfl⟩ := List.mem_map.mp member
    cases entry.1 <;> decide
  · rw [atoms]
    exact List.forall_mem_map.mpr spaceless
  · rw [atoms]
    exact List.forall_mem_map.mpr fun atom member => ⟨'.', dotted atom member, by decide⟩
  · rw [atoms, List.mapM_map]
    exact mapM_eq_some_map read

/-- The atoms behind the first one are written one after the other. -/
theorem toCppRest_writes
    {groupingAttr : List Text}
    {columns : List Column}
    (each : ∀ entry ∈ rest, ∃ guard,
      (condition entry.2).toCpp "(*it)" "(*xt)" groupingAttr columns = some guard ∧
        Cpp.Writes guard (expr entry.2)) :
    ∃ tail, Conditions.toCppRest "(*it)" "(*xt)" groupingAttr columns
        ((rest.map Prod.snd).map condition) (rest.map fun entry => entry.1.text) =
          some (Cpp.lineTail tail) ∧
      List.Forall₂ (fun entry expr => Cpp.LogicalWord entry.1 expr.1 ∧
        Cpp.Writes entry.2 expr.2) tail
        (rest.map fun entry => (entry.1.operator, expr entry.2)) := by
  induction rest with
  | nil => exact ⟨[], rfl, .nil⟩
  | cons entry rest inductionHypothesis =>
      obtain ⟨connective, atom⟩ := entry
      obtain ⟨guard, translated, writes⟩ := each _ (List.mem_cons_self ..)
      obtain ⟨tail, later, written⟩ := inductionHypothesis
        fun other member => each other (List.mem_cons_of_mem _ member)
      refine ⟨(connective.text, guard) :: tail, ?_,
        .cons ⟨connective.logicalWord, writes⟩ written⟩
      simp only [List.map_cons, Conditions.toCppRest, translated, later, Option.bind_eq_bind,
        Option.bind_some, Cpp.lineTail, List.flatMap_cons]
      simp

/-- The guard of a line of atoms is read as the chain of their expressions. -/
theorem Conditions.read_toCpp
    {groupingAttr : List Text}
    {columns : List Column}
    (each : ∀ atom ∈ first :: rest.map Prod.snd, ∃ guard,
      (condition atom).toCpp "(*it)" "(*xt)" groupingAttr columns = some guard ∧
        Cpp.Writes guard (expr atom)) :
    ∃ guard, Conditions.toCpp
        ⟨(first :: rest.map Prod.snd).map condition, rest.map fun entry => entry.1.text⟩
        "(*it)" "(*xt)" groupingAttr columns = some guard ∧
      Cpp.read guard = some (Precedence.chain .binary Cpp.BinOp.binds [] (expr first)
        (rest.map fun entry => (entry.1.operator, expr entry.2))) := by
  obtain ⟨guard, translated, writes⟩ := each first (List.mem_cons_self ..)
  obtain ⟨tail, later, written⟩ := toCppRest_writes
    fun entry member => each entry.2 (List.mem_cons_of_mem _ (List.mem_map_of_mem member))
  refine ⟨guard ++ Cpp.lineTail tail, ?_, Cpp.read_line written writes⟩
  simp only [Conditions.toCpp, List.map_cons, translated, Option.bind_eq_bind, Option.bind_some,
    later]
  rfl

end Written

section Read

variable {columns : List Column} {line : Line}

/-- The constructor recovers the atoms and connectives of a line. -/
theorem Line.ofText_text
    (named : NamedColumns columns)
    (wellFormed : line.WellFormed columns) :
    Conditions.ofText line.text = some line.conditions :=
  Conditions.ofText_linePieces
    (fun atom member => atom.space_notMem_text named (wellFormed.atoms atom member)
      (wellFormed.spaceless atom member))
    (fun atom _ => atom.dot_mem_text)
    (fun atom member => atom.ofText_text named (wellFormed.atoms atom member))

/-- The guard of a well-formed line is read as the line's expression. -/
theorem Line.read_toCpp
    (named : NamedColumns columns)
    (wellFormed : line.WellFormed columns)
    (groupingAttr : List Text) :
    ∃ text, line.conditions.toCpp "(*it)" "(*xt)" groupingAttr columns = some text ∧
      Cpp.read text = some line.expr :=
  Conditions.read_toCpp fun atom member =>
    atom.toCpp_writes named (wellFormed.atoms atom member) groupingAttr

end Read

/-! ## Evaluating the guard of a line -/

/-- Whatever the group vectors hold, the expression leaves them alone and is
true, false, or fails as given. -/
def Cpp.Tells (env : Env) (expr : Cpp.Expr) (truth : Option Bool) : Prop :=
  ∃ value : Option Val, (∀ vectors, Cpp.eval env expr vectors = value.map (·, vectors)) ∧
    value.bind Val.truth = truth

/-- The logical operators on truth values that may fail: `&&` and `||` look at
their right operand only when it matters. -/
def logicalNode : Cpp.BinOp → Option Bool → Option Bool → Option Bool
  | .and, left, right => left.bind fun truth => if truth = false then some false else right
  | .or, left, right => left.bind fun truth => if truth = true then some true else right
  | _, left, right => left.bind fun first => right.map fun second => first != second

/-- The operators connectives stand for. -/
def IsConnective (operator : Cpp.BinOp) : Prop :=
  ∃ connective : Connective, connective.operator = operator

namespace Cpp.Tells

variable {env : Env} {left right : Cpp.Expr} {leftTruth rightTruth : Option Bool}

/-- Operators that stop at a left operand with a given truth value. -/
theorem shortcut
    {operator : Cpp.BinOp}
    {stop : Bool}
    (unfolds : ∀ vectors, Cpp.eval env (.binary operator left right) vectors =
      (Cpp.eval env left vectors).bind fun leftResult => leftResult.1.truth.bind fun truth =>
        if truth = stop then some (.bool stop, leftResult.2)
        else (Cpp.eval env right leftResult.2).bind fun rightResult =>
          rightResult.1.truth.map fun truth => (.bool truth, rightResult.2))
    (leftTells : Tells env left leftTruth)
    (rightTells : Tells env right rightTruth) :
    Tells env (.binary operator left right)
      (leftTruth.bind fun truth => if truth = stop then some stop else rightTruth) := by
  obtain ⟨leftValue, leftEval, rfl⟩ := leftTells
  obtain ⟨rightValue, rightEval, rfl⟩ := rightTells
  refine ⟨(leftValue.bind Val.truth).bind fun truth =>
    if truth = stop then some (.bool stop) else (rightValue.bind Val.truth).map .bool,
    fun vectors => ?_, ?_⟩
  · rw [unfolds, leftEval]
    cases leftValue with
    | none => rfl
    | some leftValue =>
        simp only [Option.map_some, Option.bind_some, rightEval]
        cases leftValue.truth with
        | none => rfl
        | some truth =>
            simp only [Option.bind_some]
            split_ifs
            · rfl
            · cases rightValue with
              | none => rfl
              | some rightValue => simp [Function.comp_def]
  · cases leftValue.bind Val.truth with
    | none => rfl
    | some truth =>
        simp only [Option.bind_some]
        split_ifs
        · rfl
        · cases rightValue.bind Val.truth <;> rfl

theorem and
    (leftTells : Tells env left leftTruth)
    (rightTells : Tells env right rightTruth) :
    Tells env (.binary .and left right) (logicalNode .and leftTruth rightTruth) := by
  refine leftTells.shortcut (fun vectors => ?_) rightTells
  simp only [Cpp.eval]
  refine Option.bind_congr fun result _ => Option.bind_congr fun truth _ => ?_
  cases truth <;> rfl

theorem or
    (leftTells : Tells env left leftTruth)
    (rightTells : Tells env right rightTruth) :
    Tells env (.binary .or left right) (logicalNode .or leftTruth rightTruth) := by
  refine leftTells.shortcut (fun vectors => ?_) rightTells
  simp only [Cpp.eval]

theorem xor
    (leftTells : Tells env left leftTruth)
    (rightTells : Tells env right rightTruth) :
    Tells env (.binary .xor left right) (logicalNode .xor leftTruth rightTruth) := by
  obtain ⟨leftValue, leftEval, rfl⟩ := leftTells
  obtain ⟨rightValue, rightEval, rfl⟩ := rightTells
  refine ⟨leftValue.bind fun first => rightValue.bind fun second =>
    Cpp.BinOp.bits first second, fun vectors => ?_, ?_⟩
  · simp only [Cpp.eval, leftEval]
    cases leftValue with
    | none => rfl
    | some leftValue =>
        simp only [Option.map_some, Option.bind_some, rightEval]
        cases rightValue with
        | none => rfl
        | some rightValue => rfl
  · cases leftValue with
    | none => rfl
    | some leftValue =>
        cases rightValue with
        | none => simp [logicalNode]
        | some rightValue =>
            simp only [Option.bind_some, Cpp.BinOp.bits, logicalNode]
            cases leftValue.truth with
            | none => rfl
            | some first =>
                cases rightValue.truth with
                | none => rfl
                | some second => cases first <;> cases second <;> rfl

end Cpp.Tells

/-- The guard of a line tells what its atoms tell, combined by the C++
operators. -/
theorem Line.tells_expr
    {env : Env}
    {line : Line}
    {truth : Atom → Option Bool}
    (each : ∀ atom ∈ line.atoms, Cpp.Tells env atom.expr (truth atom)) :
    Cpp.Tells env line.expr
      (Precedence.chain logicalNode Cpp.BinOp.binds [] (truth line.first)
        (line.rest.map fun entry => (entry.1.operator, truth entry.2))) := by
  have respects : ∀ operator left right leftTruth rightTruth, IsConnective operator →
      Cpp.Tells env left leftTruth → Cpp.Tells env right rightTruth →
        Cpp.Tells env (.binary operator left right)
          (logicalNode operator leftTruth rightTruth) := by
    rintro operator left right leftTruth rightTruth ⟨connective, rfl⟩ leftTells rightTells
    cases connective with
    | and => exact leftTells.and rightTells
    | or => exact leftTells.or rightTells
    | xor => exact leftTells.xor rightTells
  refine Precedence.related_chain respects Cpp.BinOp.binds ?_ .nil
    (each line.first (List.mem_cons_self ..))
  · rw [List.forall₂_map_left_iff, List.forall₂_map_right_iff, List.forall₂_same]
    intro entry member
    exact ⟨rfl, ⟨entry.1, rfl⟩, each entry.2
      (List.mem_cons_of_mem _ (List.mem_map_of_mem member))⟩

/-! ## What a line means -/

/-- The connectives on truth values. -/
def connectiveNode : Cpp.BinOp → Bool → Bool → Bool
  | .and, left, right => left && right
  | .or, left, right => left || right
  | _, left, right => left != right

/-- Rank of a connective in SQL: `and` before `xor` before `or`. -/
def sqlRank : Cpp.BinOp → Nat
  | .and => 3
  | .xor => 2
  | .or => 1
  | _ => 0

/-- Of two connectives of a line the tighter one is applied first, of equals
the left one. -/
def sqlBinds (waiting next : Cpp.BinOp) : Bool :=
  decide (sqlRank next ≤ sqlRank waiting)

/-- The truth of a line, given the truth of its atoms. -/
def Line.holds (line : Line) (truth : Atom → Bool) : Bool :=
  Precedence.chain connectiveNode sqlBinds [] (truth line.first)
    (line.rest.map fun entry => (entry.1.operator, truth entry.2))

example (a b c d : Atom) (truth : Atom → Bool) :
    Line.holds ⟨a, [(.or, b), (.and, c), (.or, d)]⟩ truth =
      (truth a || truth b && truth c || truth d) := rfl

/-- Lines without `xor` mean in C++ what they mean in SQL. -/
theorem Line.tells_holds
    {env : Env}
    {line : Line}
    (noXor : ∀ entry ∈ line.rest, entry.1 ≠ .xor)
    {truth : Atom → Bool}
    (each : ∀ atom ∈ line.atoms, Cpp.Tells env atom.expr (some (truth atom))) :
    Cpp.Tells env line.expr (some (line.holds truth)) := by
  have told := Line.tells_expr each
  have succeeds : ∀ operator left right leftTruth rightTruth, IsConnective operator →
      left = some leftTruth → right = some rightTruth →
        logicalNode operator left right =
          some (connectiveNode operator leftTruth rightTruth) := by
    rintro operator _ _ leftTruth rightTruth ⟨connective, rfl⟩ rfl rfl
    cases connective <;> cases leftTruth <;> rfl
  have defined : Precedence.chain logicalNode Cpp.BinOp.binds [] (some (truth line.first))
      (line.rest.map fun entry => (entry.1.operator, some (truth entry.2))) =
        some (Precedence.chain connectiveNode Cpp.BinOp.binds [] (truth line.first)
          (line.rest.map fun entry => (entry.1.operator, truth entry.2))) := by
    refine Precedence.related_chain succeeds Cpp.BinOp.binds ?_ .nil rfl
    rw [List.forall₂_map_left_iff, List.forall₂_map_right_iff, List.forall₂_same]
    exact fun entry _ => ⟨rfl, ⟨entry.1, rfl⟩, rfl⟩
  have agree : ∀ waiting next, waiting = .and ∨ waiting = .or → next = .and ∨ next = .or →
      Cpp.BinOp.binds waiting next = sqlBinds waiting next := by
    rintro waiting next (rfl | rfl) (rfl | rfl) <;> rfl
  rw [defined, Precedence.chain_congr agree ?_ (by simp)] at told
  · exact told
  · intro entry member
    obtain ⟨⟨connective, atom⟩, inside, rfl⟩ := List.mem_map.mp member
    have notXor := noXor _ inside
    cases connective with
    | and => exact .inl rfl
    | or => exact .inr rfl
    | xor => exact (notXor rfl).elim

/-! ## Which scan a line guards -/

/-- The translation of a line of a query. -/
def Query.translation (query : Query) (line : Text) : Option Text :=
  (Conditions.ofText line).bind fun conditions =>
    conditions.toCpp "(*it)" "(*xt)" query.groupingAttr query.columns

/-- The guard of a scan is the translation of the line at its place. -/
theorem Query.getSelectionCond_eq_translation
    (query : Query)
    {generator : ScanGenerator}
    (built : query.scanGenerator = some generator)
    {index : Nat}
    {line : Text}
    (written : query.selectCondVect[index]? = some line) :
    generator.getSelectionCond (index + 1) = query.translation line := by
  have parts := Query.builtFrom built
  obtain ⟨parsed, read, atIndex⟩ := getElem?_of_mapM parts.selectConditions_eq written
  simp only [ScanGenerator.getSelectionCond, atIndex, Option.bind_eq_bind, Option.bind_some,
    Query.translation, read, parts.groupingAttr_eq, parts.columns_eq]

/-- All atoms of the line carry the label. -/
def isLabelled (i : Nat) (line : Text) : Bool :=
  (Conditions.ofText line).any fun conditions =>
    conditions.conditions.all fun condition => decide (condition.group = i)

/-- The line at each place is the one that carries the number of the place. -/
def LabelledInOrder (lines : List Text) : Prop :=
  ∀ (index : Nat) (line : Text), lines[index]? = some line →
    ∀ i, 1 ≤ i → i ≤ lines.length → (isLabelled i line = true ↔ i = index + 1)

/-- Lines are assigned to scans by their place, whatever their labels; so the
guard of a scan is the translation of the line with its label when the lines
stand in the order of their labels. -/
theorem scan_guarded_by_place
    (query : Query)
    (generator : ScanGenerator)
    (built : query.scanGenerator = some generator) :
    (∀ (index : Nat) (line : Text), query.selectCondVect[index]? = some line →
      generator.getSelectionCond (index + 1) = query.translation line) ∧
    (LabelledInOrder query.selectCondVect →
      ∀ i, 1 ≤ i → i ≤ query.selectCondVect.length → ∀ line ∈ query.selectCondVect,
        isLabelled i line = true → generator.getSelectionCond i = query.translation line) := by
  have byPlace (index : Nat) (line : Text) (written : query.selectCondVect[index]? = some line) :=
    query.getSelectionCond_eq_translation built written
  refine ⟨byPlace, ?_⟩
  intro inOrder i positive inRange line member labelled
  obtain ⟨index, written⟩ := List.mem_iff_getElem?.mp member
  have place := (inOrder index line written i positive inRange).mp labelled
  subst place
  exact byPlace index line written

/-- Two lines in the order of their labels. -/
def orderedQuery : Query where
  columns := [⟨"cust", .varchar⟩, ⟨"quant", .int⟩]
  selectAttribute := ["cust", "1_sum_quant", "2_sum_quant"]
  noGroupingVars := 2
  groupingAttr := ["cust"]
  fVect := ["1_sum_quant", "2_sum_quant"]
  selectCondVect := ["1.quant>9", "2.quant>5"]
  having := []
  emf := false

/-- The same lines exchanged. -/
def exchangedQuery : Query := { orderedQuery with selectCondVect := ["2.quant>5", "1.quant>9"] }

theorem labelledInOrder_orderedQuery : LabelledInOrder orderedQuery.selectCondVect := by
  have first : isLabelled 1 "1.quant>9" = true ∧ isLabelled 2 "1.quant>9" = false := by decide
  have second : isLabelled 1 "2.quant>5" = false ∧ isLabelled 2 "2.quant>5" = true := by decide
  intro index line written i positive inRange
  obtain rfl | rfl : i = 1 ∨ i = 2 := by
    change i ≤ 2 at inRange
    omega
  all_goals
    rcases index with _ | _ | index
    · obtain rfl : "1.quant>9".toList = line := Option.some.inj written
      simp only [first.1, first.2] <;> decide
    · obtain rfl : "2.quant>5".toList = line := Option.some.inj written
      simp only [second.1, second.2] <;> decide
    · cases written

/-- Each scan of the ordered lines has its own guard. -/
theorem scan_guarded_by_place_ordered :
    ∃ generator, orderedQuery.scanGenerator = some generator ∧
      generator.getSelectionCond 2 = orderedQuery.translation "2.quant>5" := by
  obtain ⟨generator, built⟩ := Option.isSome_iff_exists.mp
    (by rfl : orderedQuery.scanGenerator.isSome = true)
  exact ⟨generator, built, (scan_guarded_by_place orderedQuery generator built).2
    labelledInOrder_orderedQuery 2 (by decide) (by decide) _ (by decide) (by decide)⟩

/-- With the lines exchanged, exactly one line carries each label, and the
first scan is guarded by the line labelled two. -/
theorem exchanged_lines_exchange_guards :
    exchangedQuery.selectCondVect.map (isLabelled 1) = [false, true] ∧
      exchangedQuery.selectCondVect.map (isLabelled 2) = [true, false] ∧
      exchangedQuery.scanGenerator.bind (·.getSelectionCond 1) =
        some "(*it)->quant > 5".toList ∧
      exchangedQuery.translation "1.quant>9" = some "(*it)->quant > 9".toList := by
  decide

end MfQuery
