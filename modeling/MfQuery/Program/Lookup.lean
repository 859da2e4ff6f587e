import MfQuery.Program.Lockstep
import MfQuery.Program.Operators

/-!
# Emitted lookup functions

The passes call three emitted functions, `vfind<i>`, `is_unique` and
`get_uniques`. Each compares keys in a condition that `get_helpers` writes from
the grouping attributes. Read as C++ and evaluated over the variables of its
function, the condition compares the keys, and the loops around it compute what
the passes rely on.
-/

namespace MfQuery

open Text

/-! ## The emitted functions -/

/-- The condition of `vfind<i>`: parameters against the visited record. -/
def vfindCondition (cols : List Ct) : Text :=
  joinAnd (cols.map fun col => keyComparison col.name col)

/-- The condition of `is_unique`: the entry against the visited row. -/
def isUniqueCondition (cols : List Ct) : Text :=
  joinAnd (cols.map fun col => keyComparison ("entry->" ++ col.name) col)

/-- Variables of a function. -/
abbrev Variables := Text → Option Val

/-- The value of a condition of a helper, in which `it` visits a record. The
helpers write neither `||` nor assignments; these have no value here. -/
def Cpp.evalHelper (scope : Variables) (visited : Record) : Cpp.Expr → Option Val
  | .number digits => literal digits
  | .string body => some (.str body)
  | .var name => scope name
  | .unary operator operand =>
      (evalHelper scope visited operand).bind
        (operator.apply ⟨[], fun _ => some visited, none⟩)
  | .binary .and left right =>
      (evalHelper scope visited left).bind fun leftValue =>
        leftValue.truth.bind fun leftTruth =>
          if leftTruth then
            (evalHelper scope visited right).bind fun rightValue =>
              rightValue.truth.map .bool
          else some (.bool false)
  | .binary operator left right =>
      (evalHelper scope visited left).bind fun leftValue =>
        (evalHelper scope visited right).bind (operator.apply leftValue)
  | .arrow base field =>
      (evalHelper scope visited base).bind fun value => arrowVal (fun _ => []) value field
  | .dot base field => (evalHelper scope visited base).bind fun value => dotVal value field
  | .supply callee argument =>
      (evalHelper scope visited callee).bind fun function =>
        (evalHelper scope visited argument).bind (supplyVal function)
  | .call callee => (evalHelper scope visited callee).bind (callVal [] fun _ => [])

/-- The truth value of a condition text. -/
def helperCondition (scope : Variables) (condition : Text) (visited : Record) : Option Bool :=
  (Cpp.read condition).bind fun expr =>
    (Cpp.evalHelper scope visited expr).bind Val.truth

/-- The variables in the loop of `vfind<i>`: the iterator and the parameters. -/
def vfindVariables (cols : List Ct) (arguments : List Value) : Variables := fun name =>
  if name = "it".toList then some (.iter .it)
  else ((cols.zip arguments).find? fun pair => pair.1.name = name).map fun pair =>
    .cell pair.2 none

/-- The variables in the loop of `is_unique`: the iterator and the entry. -/
def isUniqueVariables (entry : Row) : Variables := fun name =>
  if name = "it".toList then some (.iter .it)
  else if name = "entry".toList then some (.row entry)
  else none

/-- The loop of `vfind<i>`; the index is returned as an `int`. -/
def vfindLoop (condition : Record → Option Bool) : List Record → Nat → Option Int
  | [], _ => some (-1)
  | record :: rest, index =>
      (condition record).bind fun found =>
        if found then some (wrap32 index) else vfindLoop condition rest (index + 1)

/-- The loop of `is_unique`. -/
def isUniqueLoop (condition : Record → Option Bool) : List Row → Option Bool
  | [] => some true
  | row :: rest =>
      (condition row).bind fun found => if found then some false else isUniqueLoop condition rest

/-- The loop of `get_uniques`. -/
def getUniquesLoop (unique : List Row → Row → Option Bool) :
    List Row → List Row → Option (List Row)
  | [], out => some out
  | entry :: rest, out =>
      (unique out entry).bind fun isNew =>
        getUniquesLoop unique rest (if isNew then out ++ [entry] else out)

/-- `vfind<i>` as it is emitted. It does not compile when two of its parameters,
or a parameter and the index, have one name. -/
def emittedVfind (cols : List Ct) (data : List Record) (arguments : List Value) : Option Int :=
  if (["data".toList, "index".toList] ++ cols.map Ct.name).Nodup then
    vfindLoop (helperCondition (vfindVariables cols arguments) (vfindCondition cols)) data 0
  else none

/-- `is_unique` as it is emitted. -/
def emittedIsUnique (cols : List Ct) (data : List Row) (entry : Row) : Option Bool :=
  isUniqueLoop (helperCondition (isUniqueVariables entry) (isUniqueCondition cols)) data

/-- `get_uniques` as it is emitted. -/
def emittedGetUniques (cols : List Ct) (data : List Row) : Option (List Row) :=
  getUniquesLoop (emittedIsUnique cols) data []

/-! ## Reading the conditions -/

/-- A call of a member function with a member of the visited record. -/
theorem Cpp.Parser.ReadsOperand.methodCallMember
    {tokens : List Cpp.Token}
    {base : Cpp.Expr}
    (reads : Cpp.Parser.ReadsOperand tokens base)
    (method iterator column : Text) :
    Cpp.Parser.ReadsOperand
      (tokens ++ ([.punct ".", .ident method, .punct "("] ++
        (Cpp.Parser.memberTokens iterator column ++ [.punct ")"])))
      (.call (.supply (.dot base method) (Cpp.Parser.memberExpr iterator column))) := by
  intro context
  exact Cpp.Parser.run_append_of_eq (reads context) rfl

/-- The expression of one comparison. -/
def keyExpr (left : Cpp.Expr) (col : Ct) : Cpp.Expr :=
  match col.type with
  | .string =>
      .binary .eq
        (.call (.supply (.dot left "compare") (Cpp.Parser.memberExpr "it" col.name)))
        (.number "0")
  | _ => .binary .eq left (Cpp.Parser.memberExpr "it" col.name)

section Comparison

variable {left : Text} {leftTokens : List Cpp.Token} {last : Text} {leftExpr : Cpp.Expr}
  (spelled : Cpp.Spells left leftTokens (.ident last))
  (reads : Cpp.Parser.ReadsOperand leftTokens leftExpr)
include spelled reads

/-- A comparison is read as its expression. -/
theorem writes_keyComparison
    {col : Ct}
    (isName : Cpp.isName col.name = true)
    (typed : col.type = .string ∨ col.type = .int64) :
    Cpp.Writes (keyComparison left col) (keyExpr leftExpr col) := by
  have equality : Cpp.Parser.Infix "==" .eq := fun _ _ => rfl
  have name := Cpp.Spells.name isName
  rcases typed with isString | isInt
  · have opening : Cpp.Spells ('.' :: ("compare((*it)->" : Text))
        [.punct ".", .ident "compare", .punct "(", .punct "(", .punct "*", .ident "it", .punct ")",
          .punct "->"] .start := .of_closed rfl
    have closing : Cpp.Spells (')' :: (" == 0" : Text)) [.punct ")", .punct "==", .number "0"]
        (.number "0") := .of_closed rfl
    have behind := opening.append_start
      (name.append (Cpp.breaks_ident (by decide : identRest ')' = false) _) closing)
    have whole := spelled.append (Cpp.breaks_ident (by decide : identRest '.' = false) _) behind
    have operand := (reads.methodCallMember "compare" "it" col.name).compare equality (.inl rfl)
      (Cpp.Parser.ReadsOperand.number "0").readsSum
    rw [keyComparison, keyExpr, isString]
    refine ⟨_, .number "0", ?_, Cpp.breaks_number (by decide) (by decide) _, operand⟩
    simpa [Cpp.Parser.memberTokens] using whole
  · have opening : Cpp.Spells (' ' :: ("== (*it)->" : Text))
        [.punct "==", .punct "(", .punct "*", .ident "it", .punct ")", .punct "->"] .start :=
      .of_closed rfl
    have whole := spelled.append (Cpp.breaks_ident (by decide : identRest ' ' = false) _)
      (opening.append_start name)
    have operand := reads.compare equality (.inl rfl)
      (Cpp.Parser.ReadsOperand.member "it" col.name).readsSum
    rw [keyComparison, keyExpr, isInt]
    refine ⟨_, .ident col.name, ?_, Cpp.breaks_ident (by decide) _, operand⟩
    simpa [Cpp.Parser.memberTokens] using whole

end Comparison

theorem joinAnd_eq_lineTail
    (first : Text)
    (rest : List Text) :
    joinAnd (first :: rest) = first ++ Cpp.lineTail (rest.map fun next => ("&&", next)) := by
  induction rest generalizing first with
  | nil => simp [joinAnd, Cpp.lineTail]
  | cons next rest inductionHypothesis =>
      have word : (" && " : Text) = ' ' :: (("&&" : Text) ++ [' ']) := by decide
      rw [joinAnd, inductionHypothesis, word]
      simp [Cpp.lineTail]

/-! ## Evaluating the conditions -/

/-- The expression has a truth value. -/
def TellsIn (scope : Variables) (visited : Record) (expr : Cpp.Expr) (truth : Bool) : Prop :=
  (Cpp.evalHelper scope visited expr).bind Val.truth = some truth

section Conditions

variable {scope : Variables} {visited : Record}

theorem TellsIn.and
    {left right : Cpp.Expr}
    {leftTruth rightTruth : Bool}
    (leftTells : TellsIn scope visited left leftTruth)
    (rightTells : TellsIn scope visited right rightTruth) :
    TellsIn scope visited (.binary .and left right) (leftTruth && rightTruth) := by
  obtain ⟨leftValue, isLeft, isLeftTruth⟩ := Option.bind_eq_some_iff.mp leftTells
  obtain ⟨rightValue, isRight, isRightTruth⟩ := Option.bind_eq_some_iff.mp rightTells
  rw [TellsIn, Cpp.evalHelper, isLeft, Option.bind_some, isLeftTruth, Option.bind_some]
  cases leftTruth with
  | false => rfl
  | true =>
      rw [if_pos rfl, isRight, Option.bind_some, isRightTruth]
      rfl

/-- The condition of a helper holds when all its comparisons do. -/
theorem helperCondition_joinAnd
    {cols : List Ct}
    {comparison : Ct → Text}
    {expr : Ct → Cpp.Expr}
    {truth : Ct → Bool}
    (present : cols ≠ [])
    (writes : ∀ col ∈ cols, Cpp.Writes (comparison col) (expr col))
    (tells : ∀ col ∈ cols, TellsIn scope visited (expr col) (truth col)) :
    helperCondition scope (joinAnd (cols.map comparison)) visited = some (cols.all truth) := by
  obtain ⟨first, rest, rfl⟩ := List.exists_cons_of_ne_nil present
  rw [List.forall_mem_cons] at writes tells
  have conjunction : Cpp.LogicalWord "&&" .and := ⟨by decide, "&&", .of_closed rfl, fun _ _ => rfl⟩
  have written : List.Forall₂ (fun entry expr => Cpp.LogicalWord entry.1 expr.1 ∧
      Cpp.Writes entry.2 expr.2) ((rest.map comparison).map fun next => ("&&".toList, next))
        (rest.map fun col => (Cpp.BinOp.and, expr col)) := by
    rw [List.map_map, List.forall₂_map_left_iff, List.forall₂_map_right_iff, List.forall₂_same]
    exact fun col member => ⟨conjunction, writes.2 col member⟩
  have told : TellsIn scope visited
      (Precedence.chain .binary Cpp.BinOp.binds [] (expr first)
        (rest.map fun col => (.and, expr col)))
      (Precedence.chain (fun _ left right => left && right) Cpp.BinOp.binds [] (truth first)
        (rest.map fun col => (.and, truth col))) := by
    have respects : ∀ operator left right leftTruth rightTruth, operator = Cpp.BinOp.and →
        TellsIn scope visited left leftTruth → TellsIn scope visited right rightTruth →
          TellsIn scope visited (.binary operator left right) (leftTruth && rightTruth) := by
      rintro operator left right leftTruth rightTruth rfl leftTells rightTells
      exact leftTells.and rightTells
    refine Precedence.related_chain respects Cpp.BinOp.binds ?_ .nil tells.1
    rw [List.forall₂_map_left_iff, List.forall₂_map_right_iff, List.forall₂_same]
    exact fun col member => ⟨rfl, rfl, tells.2 col member⟩
  have all : Precedence.chain (fun _ left right => left && right) Cpp.BinOp.binds [] (truth first)
      (rest.map fun col => (.and, truth col)) = (first :: rest).all truth := by
    have split := @Precedence.chain_holds_iff Cpp.BinOp Bool (fun _ left right => left && right)
      (· = true) (fun _ left right => Bool.and_eq_true_iff) Cpp.BinOp.binds [] (truth first)
      (rest.map fun col => (.and, truth col))
    rw [Bool.eq_iff_iff, split]
    simp
  rw [List.map_cons, helperCondition, joinAnd_eq_lineTail, Cpp.read_line written writes.1,
    Option.bind_some, ← all]
  exact told

/-- A comparison at the type of its column. -/
theorem tells_keyExpr
    (iterator : scope "it" = some (.iter .it))
    {left : Cpp.Expr}
    {content : Value}
    (evaluated : Cpp.evalHelper scope visited left = some (.cell content none))
    {col : Ct}
    (leftTyped : content.HasType col.type)
    (rightTyped : (visited col.name).HasType col.type) :
    TellsIn scope visited (keyExpr left col) (keyEq col.type content (visited col.name)) := by
  have member : Cpp.evalHelper scope visited (Cpp.Parser.memberExpr "it" col.name) =
      some (.cell (visited col.name) none) := by
    simp only [Cpp.Parser.memberExpr, Cpp.evalHelper, iterator, Option.bind_some]
    rfl
  cases type : col.type with
  | string =>
      rw [type] at leftTyped rightTyped
      obtain ⟨leftText, rfl⟩ := leftTyped
      obtain ⟨rightText, isRight⟩ := rightTyped
      rw [isRight] at member ⊢
      have zero : literal "0" = some (.num false 0) := rfl
      simp only [TellsIn, keyExpr, type, Cpp.evalHelper, evaluated, member, zero,
        Option.bind_some]
      change some (decide (Cpp.compareSign leftText rightText = 0)) =
        some (decide (leftText = rightText))
      simp only [compareSign_eq_zero]
  | int64 =>
      rw [type] at leftTyped rightTyped
      obtain ⟨leftNumber, rfl⟩ := leftTyped
      obtain ⟨rightNumber, isRight⟩ := rightTyped
      rw [isRight] at member ⊢
      simp only [TellsIn, keyExpr, type, Cpp.evalHelper, evaluated, member, Option.bind_some]
      rfl
  | float | double | date | raw | vector =>
      rw [type] at leftTyped
      exact leftTyped.elim

end Conditions

/-! ## The functions compare keys -/

/-- Key columns the helpers can be written for: there is one, and their names are
identifiers other than those of the function. -/
structure Ct.Writable (cols : List Ct) : Prop where
  present : cols ≠ []
  names : ∀ col ∈ cols, Cpp.isName col.name = true
  apart : (["data".toList, "index".toList] ++ cols.map Ct.name).Nodup
  notIterator : ∀ col ∈ cols, col.name ≠ "it".toList

/-- A parameter holds the argument passed for its column. -/
theorem vfindVariables_keyOf
    {cols : List Ct}
    {col : Ct}
    (member : col ∈ cols)
    (notIterator : col.name ≠ "it".toList)
    (row : Record) :
    vfindVariables cols (keyOf (cols.map Ct.name) row) col.name =
      some (.cell (row col.name) none) := by
  have pairs : cols.zip (keyOf (cols.map Ct.name) row) =
      cols.map fun column => (column, row column.name) := by
    rw [List.map_prod_left_eq_zip, keyOf, List.map_map]
    rfl
  have found : ((cols.find? fun column => column.name = col.name).map fun column =>
      (column, row column.name)).map (fun pair => Val.cell pair.2 none) =
        some (.cell (row col.name) none) := by
    have isSome : (cols.find? fun column => column.name = col.name).isSome := by
      rw [List.find?_isSome]
      exact ⟨col, member, decide_eq_true rfl⟩
    obtain ⟨column, isFound⟩ := Option.isSome_iff_exists.mp isSome
    have named : column.name = col.name := by
      simpa using List.find?_some isFound
    rw [isFound, Option.map_some, Option.map_some, named]
  rw [vfindVariables, if_neg notIterator, pairs, List.find?_map]
  exact found

section Keys

variable {cols : List Ct} (writable : Ct.Writable cols)
include writable

/-- The condition of `vfind<i>` compares the arguments with the key of the
record. -/
theorem helperCondition_vfind
    {row record : Record}
    (typed : KeyTyped cols [row, record]) :
    helperCondition (vfindVariables cols (keyOf (cols.map Ct.name) row)) (vfindCondition cols)
      record = some (argumentsMatch cols (keyOf (cols.map Ct.name) row) record) := by
  rw [argumentsMatch_keyOf, vfindCondition, sameKey]
  apply helperCondition_joinAnd writable.present
  · intro col member
    have isName := writable.names col member
    exact writes_keyComparison (.name isName) (fun _ => rfl : Cpp.Parser.ReadsOperand _
      (.var col.name)) isName (typed col member).1
  · intro col member
    have types := (typed col member).2
    refine tells_keyExpr rfl ?_ (types row (by simp)) (types record (by simp))
    exact vfindVariables_keyOf member (writable.notIterator col member) row

/-- The condition of `is_unique` compares the keys of two rows. -/
theorem helperCondition_isUnique
    {entry row : Row}
    (typed : KeyTyped cols [entry, row]) :
    helperCondition (isUniqueVariables entry) (isUniqueCondition cols) row =
      some (sameKey cols entry row) := by
  rw [isUniqueCondition, sameKey]
  apply helperCondition_joinAnd writable.present
  · intro col member
    have isName := writable.names col member
    have pointer : Cpp.Spells "entry->" [.ident "entry", .punct "->"] .start := .of_closed rfl
    exact writes_keyComparison (pointer.append_start (.name isName)) (fun _ => rfl :
      Cpp.Parser.ReadsOperand _ (.arrow (.var "entry") col.name)) isName (typed col member).1
  · intro col member
    have types := (typed col member).2
    exact tells_keyExpr rfl rfl (types entry (by simp)) (types row (by simp))

/-! ## The loops -/

omit writable in
/-- The loop returns the index of the first record the condition holds of. -/
theorem vfindLoop_eq
    {condition : Record → Option Bool}
    {test : Record → Bool}
    {records : List Record}
    (tells : ∀ record ∈ records, condition record = some (test record))
    (index : Nat) :
    vfindLoop condition records index =
      some ((records.findIdx? test).elim (-1) fun offset => wrap32 (index + offset : Nat)) := by
  induction records generalizing index with
  | nil => rfl
  | cons record rest inductionHypothesis =>
      rw [List.forall_mem_cons] at tells
      rw [vfindLoop, tells.1, Option.bind_some, List.findIdx?_cons]
      cases test record with
      | true => rw [if_pos rfl, if_pos rfl, Option.elim_some, Nat.add_zero]
      | false =>
          rw [if_neg Bool.false_ne_true, if_neg Bool.false_ne_true,
            inductionHypothesis tells.2]
          cases rest.findIdx? test with
          | none => rw [Option.map_none, Option.elim_none, Option.elim_none]
          | some offset =>
              rw [Option.map_some, Option.elim_some, Option.elim_some, Nat.succ_add_eq_add_succ]

omit writable in
/-- The loop looks for a row the condition holds of. -/
theorem isUniqueLoop_eq
    {condition : Record → Option Bool}
    {test : Row → Bool}
    {rows : List Row}
    (tells : ∀ row ∈ rows, condition row = some (test row)) :
    isUniqueLoop condition rows = some (!rows.any test) := by
  induction rows with
  | nil => rfl
  | cons row rest inductionHypothesis =>
      rw [List.forall_mem_cons] at tells
      rw [isUniqueLoop, tells.1, Option.bind_some, inductionHypothesis tells.2, List.any_cons]
      cases test row <;> rfl

/-- `is_unique` compares the entry with every row. -/
theorem emittedIsUnique_eq
    {rows : List Row}
    {entry : Row}
    (typed : KeyTyped cols (entry :: rows)) :
    emittedIsUnique cols rows entry = some (isUnique cols rows entry) := by
  apply isUniqueLoop_eq
  intro row member
  apply helperCondition_isUnique writable
  apply typed.subset
  simp [member]

/-- The loop of `get_uniques` from the rows kept so far. -/
theorem getUniquesLoop_eq
    {rows out : List Row}
    (typed : KeyTyped cols (rows ++ out)) :
    getUniquesLoop (emittedIsUnique cols) rows out =
      some (rows.foldl (fun out entry => if isUnique cols out entry then out ++ [entry] else out)
        out) := by
  induction rows generalizing out with
  | nil => rfl
  | cons entry rest inductionHypothesis =>
      have first : KeyTyped cols (entry :: out) := typed.subset (by simp +contextual)
      have later : KeyTyped cols
          (rest ++ if isUnique cols out entry then out ++ [entry] else out) := by
        apply typed.subset
        split <;> simp +contextual [or_imp]
      rw [getUniquesLoop, emittedIsUnique_eq writable first, Option.bind_some,
        inductionHypothesis later]
      rfl

/-- The loop of `vfind<i>` finds the first record with the key of a row. -/
theorem emittedVfind_eq
    {row : Row}
    {records : List Record}
    (typed : KeyTyped cols (row :: records)) :
    emittedVfind cols records (keyOf (cols.map Ct.name) row) =
      some (vfind cols records (keyOf (cols.map Ct.name) row)) := by
  have tells : ∀ record ∈ records,
      helperCondition (vfindVariables cols (keyOf (cols.map Ct.name) row)) (vfindCondition cols)
        record = some (argumentsMatch cols (keyOf (cols.map Ct.name) row) record) := by
    intro record member
    apply helperCondition_vfind writable
    apply typed.subset
    simp [member]
  rw [emittedVfind, if_pos writable.apart, vfindLoop_eq tells, vfind]
  cases records.findIdx? (argumentsMatch cols (keyOf (cols.map Ct.name) row)) with
  | none => rfl
  | some offset => rw [Option.elim_some, Nat.zero_add]

end Keys

/-- A lookup of the key of a row among fewer than `2 ^ 31` records. -/
theorem vfind_keyOf
    {cols : List Ct}
    {row : Row}
    {records : List Record}
    (typed : KeyTyped cols (row :: records))
    (few : records.length ≤ 2 ^ 31) :
    vfind cols records (keyOf (cols.map Ct.name) row) =
      if keyOf (cols.map Ct.name) row ∈ records.map (keyOf (cols.map Ct.name)) then
        (keyIndex (keyOf (cols.map Ct.name)) records (keyOf (cols.map Ct.name) row) : Int)
      else -1 := by
  set key := keyOf (cols.map Ct.name) with keyDef
  have compares : ∀ record ∈ records,
      argumentsMatch cols (key row) record = true ↔ key record = key row := by
    intro record member
    exact argumentsMatch_eq_true_iff (typed.subset (by simp [member]))
  rw [vfind, FirstOccurrence.findIdx?_eq_keyIndex key compares]
  split_ifs with present
  · have inside := FirstOccurrence.keyIndex_lt key present
    exact wrap32_of_bounds (by omega) (by omega)
  · rfl

theorem infix_append_append
    (before opening middle closing : Text) :
    opening ++ middle ++ closing <:+: before ++ opening ++ middle ++ closing :=
  ⟨before, [], by simp only [List.append_nil, List.append_assoc]⟩

/-- The condition stands in the loop of `vfind<i>`. -/
theorem infix_vfindText
    (i : Nat)
    (cols : List Ct) :
    ("\t\tif(" ++ vfindCondition cols ++ ")\x7b\n" : Text) <:+: vfindText i cols := by
  unfold vfindText
  -- six texts stand behind the block
  iterate 6 apply List.infix_append_of_infix_left
  exact infix_append_append ..

/-- The condition stands in the loop of `is_unique`. -/
theorem infix_isUniqueText (cols : List Ct) :
    ("\t\tif(" ++ isUniqueCondition cols ++ ")\x7b\n" : Text) <:+: isUniqueText cols := by
  unfold isUniqueText
  iterate 5 apply List.infix_append_of_infix_left
  exact infix_append_append ..

theorem writable_cust : Ct.Writable [⟨"cust", .string⟩] where
  present := by decide
  names := by decide
  apart := by decide
  notIterator := by decide

end MfQuery
