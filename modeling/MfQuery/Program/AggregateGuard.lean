import MfQuery.Program.Operators

/-!
# Aggregates in emitted guards

An atom may compare a column with an aggregate of an earlier group. Its guard
looks the row's key up in the vector of that group twice: once to test that a
record was found, and once to read the aggregate from it. The test is
`vfind > 0`, so the record at index zero counts as not found.
-/

namespace MfQuery

open Text

/-! ## Names -/

/-- Identifier characters may follow an identifier. -/
theorem isIdent_append
    {stem rest : Text}
    (identifier : isIdent stem = true)
    (all : ∀ character ∈ rest, identRest character = true) :
    isIdent (stem ++ rest) = true := by
  cases stem with
  | nil => simp [isIdent] at identifier
  | cons first later =>
      simp only [isIdent, Bool.and_eq_true, List.all_eq_true] at identifier
      simp only [isIdent, List.cons_append, Bool.and_eq_true, List.all_eq_true]
      refine ⟨identifier.1, ?_⟩
      intro character member
      rcases List.mem_append.mp member with inside | behind
      · exact identifier.2 character inside
      · exact all character behind

/-- The alternative operator tokens have three letters at most. -/
theorem isName_of_length
    {name : Text}
    (identifier : isIdent name = true)
    (long : 3 < name.length) :
    Cpp.isName name = true := by
  have different (word : Text) (short : word.length ≤ 3) : name ≠ word := by
    rintro rfl
    omega
  rw [Cpp.isName, identifier, Bool.true_and, decide_eq_true_eq, Cpp.identToken,
    if_neg (different _ (by decide)), if_neg (different _ (by decide)),
    if_neg (different _ (by decide)), if_neg (different _ (by decide))]

/-- A stem with a number behind it, as in `data<k>` and `vfind<k>`. -/
theorem isName_numbered
    {stem : Text}
    (identifier : isIdent stem = true)
    (long : 2 < stem.length)
    (k : Nat) :
    Cpp.isName (stem ++ numeral k) = true := by
  have digits : ∀ character ∈ numeral k, identRest character = true := by
    intro character member
    simp [identRest, Char.isAlphanum, isDigit_of_mem_numeral member]
  apply isName_of_length (isIdent_append identifier digits)
  have present := List.length_pos_iff.mpr (numeral_ne_nil k)
  rw [List.length_append]
  omega

/-- The name of a group vector. -/
def dataName (k : Nat) : Text := "data" ++ numeral k

/-- The name of its lookup function. -/
def vfindName (k : Nat) : Text := "vfind" ++ numeral k

theorem isName_dataName (k : Nat) : Cpp.isName (dataName k) = true :=
  isName_numbered (by decide) (by decide) k

theorem isName_vfindName (k : Nat) : Cpp.isName (vfindName k) = true :=
  isName_numbered (by decide) (by decide) k

theorem numberBehind_append
    (stem : Text)
    (k : Nat) :
    numberBehind stem (stem ++ numeral k) = some k := by
  have isPrefix : stem.isPrefixOf (stem ++ numeral k) = true := by simp
  rw [numberBehind, if_pos isPrefix, List.drop_left, canonical_numeral]

theorem Env.lookup_dataName
    (env : Env)
    (k : Nat) :
    env.lookup (dataName k) = some (.vec k) := by
  have found : numberBehind "data" (dataName k) = some k := numberBehind_append _ k
  have different (word : Text) (other : word.take 4 ≠ "data".toList) : dataName k ≠ word := by
    rintro rfl
    exact other rfl
  rw [Env.lookup, if_neg (different _ (by decide)), if_neg (different _ (by decide)),
    if_neg (different _ (by decide)), if_neg (different _ (by decide)),
    if_neg (different _ (by decide)), found]

theorem Env.lookup_vfindName
    (env : Env)
    (k : Nat) :
    env.lookup (vfindName k) = some (.vfindOf k none []) := by
  have found : numberBehind "vfind" (vfindName k) = some k := numberBehind_append _ k
  have notData : numberBehind "data" (vfindName k) = none := by
    have noPrefix : ("data" : Text).isPrefixOf (vfindName k) = false := rfl
    rw [numberBehind, noPrefix, if_neg Bool.false_ne_true]
  have different (word : Text) (other : word.take 5 ≠ "vfind".toList) : vfindName k ≠ word := by
    rintro rfl
    exact other rfl
  rw [Env.lookup, if_neg (different _ (by decide)), if_neg (different _ (by decide)),
    if_neg (different _ (by decide)), if_neg (different _ (by decide)),
    if_neg (different _ (by decide)), notData, found]
  rfl

/-! ## Lookups -/

/-- The expression of a lookup of the row's key. -/
def lookupExpr (k : Nat) (groupingAttr : List Text) : Cpp.Expr :=
  .call (groupingAttr.foldl
    (fun function attr => .supply function (Cpp.Parser.memberExpr Iter.it.name attr))
    (.supply (.var (vfindName k)) (.var (dataName k))))

/-- The tokens of a lookup. -/
def lookupTokens (k : Nat) (groupingAttr : List Text) : List Cpp.Token :=
  [.ident (vfindName k), .punct "(", .ident (dataName k)] ++
    (groupingAttr.flatMap
      (fun attr => .punct "," :: Cpp.Parser.memberTokens Iter.it.name attr) ++ [.punct ")"])

theorem readsOperand_lookup
    (k : Nat)
    (groupingAttr : List Text) :
    Cpp.Parser.ReadsOperand (lookupTokens k groupingAttr) (lookupExpr k groupingAttr) := by
  intro context
  have arguments := Cpp.Parser.run_memberArguments Iter.it.name groupingAttr
    (.var (vfindName k)) (.var (dataName k)) context
  exact Cpp.Parser.run_append_of_eq rfl arguments

/-- A comma or the closing parenthesis follows the vector of a lookup. -/
theorem exists_head_lookupArguments (groupingAttr : List Text) :
    ∃ character rest,
      groupingAttr.flatMap (fun attr => ("," ++ "(*it)" ++ "->" ++ attr : Text)) ++ ")".toList =
        character :: rest ∧ identRest character = false := by
  cases groupingAttr with
  | nil => exact ⟨')', [], rfl, by decide⟩
  | cons attr groupingAttr => exact ⟨',', _, rfl, by decide⟩

/-- The arguments of a lookup up to the closing parenthesis. -/
theorem spells_lookupArguments
    {groupingAttr : List Text}
    (named : ∀ attr ∈ groupingAttr, Cpp.isName attr = true) :
    Cpp.Spells
      (groupingAttr.flatMap (fun attr => ("," ++ "(*it)" ++ "->" ++ attr : Text)) ++ ")")
      (groupingAttr.flatMap
        (fun attr => .punct "," :: Cpp.Parser.memberTokens Iter.it.name attr) ++ [.punct ")"])
      (.punct ')') := by
  induction groupingAttr with
  | nil => exact .of_closed rfl
  | cons attr groupingAttr inductionHypothesis =>
      have later := inductionHypothesis
        fun other member => named other (List.mem_cons_of_mem _ member)
      have comma : Cpp.Spells "," [.punct ","] (.punct ',') := .of_closed rfl
      have member := spells_member .it (named attr (List.mem_cons_self ..))
      have first : Cpp.Spells ("," ++ memberText .it attr : Text)
          (.punct "," :: Cpp.Parser.memberTokens Iter.it.name attr) (.ident attr) :=
        comma.append rfl member
      obtain ⟨character, rest, shape, ends⟩ := exists_head_lookupArguments groupingAttr
      rw [shape] at later
      have whole := first.append (Cpp.breaks_ident ends attr) later
      rw [← shape] at whole
      simpa only [List.flatMap_cons, memberText, Iter.text, List.append_assoc] using whole

/-- The text of a lookup, cut at its tokens. -/
theorem vfindCall_eq
    (k : Nat)
    (groupingAttr : List Text) :
    Condition.vfindCall k "(*it)" groupingAttr =
      vfindName k ++ '(' :: (dataName k ++ (groupingAttr.flatMap
        (fun attr => ("," ++ "(*it)" ++ "->" ++ attr : Text)) ++ ")".toList)) := by
  have regroup (stem number data arguments close : Text) :
      stem ++ number ++ '(' :: data ++ number ++ arguments ++ close =
        stem ++ number ++ '(' :: (data ++ number ++ (arguments ++ close)) := by
    simp only [List.append_assoc, List.cons_append]
  have split : ("(data" : Text) = '(' :: ("data" : Text) := rfl
  have number : itoa k = numeral k := itoa_natCast k
  unfold Condition.vfindCall
  rw [number, split]
  apply regroup

theorem spells_lookup
    {groupingAttr : List Text}
    (named : ∀ attr ∈ groupingAttr, Cpp.isName attr = true)
    (k : Nat) :
    Cpp.Spells (Condition.vfindCall k "(*it)" groupingAttr) (lookupTokens k groupingAttr)
      (.punct ')') := by
  have function := Cpp.Spells.name (isName_vfindName k)
  have opening : Cpp.Spells "(" [.punct "("] (.punct '(') := .of_closed rfl
  have vector := Cpp.Spells.name (isName_dataName k)
  have arguments := spells_lookupArguments named
  obtain ⟨character, rest, shape, ends⟩ := exists_head_lookupArguments groupingAttr
  have text := vfindCall_eq k groupingAttr
  rw [shape] at arguments
  have behind := vector.append (Cpp.breaks_ident ends _) arguments
  have inside := opening.append rfl behind
  have whole := function.append (Cpp.breaks_ident (by decide : identRest '(' = false) _) inside
  rw [shape] at text
  rw [text]
  exact whole

theorem exists_head_vfindCall
    (k : Nat)
    (groupingAttr : List Text) :
    ∃ rest, Condition.vfindCall k "(*it)" groupingAttr = 'v' :: rest := by
  have head : vfindName k = 'v' :: ("find" ++ numeral k : Text) := rfl
  rw [vfindCall_eq, head, List.cons_append]
  exact ⟨_, rfl⟩

/-- The aggregate of the record found by a lookup. -/
def foundExpr (k : Nat) (groupingAttr : List Text) (field : Text) : Cpp.Expr :=
  .arrow (.call (.supply (.arrow (.var (dataName k)) "at") (lookupExpr k groupingAttr))) field

/-- Its tokens. -/
def foundTokens (k : Nat) (groupingAttr : List Text) (field : Text) : List Cpp.Token :=
  [.ident (dataName k), .punct "->", .ident "at", .punct "("] ++
    (lookupTokens k groupingAttr ++ [.punct ")", .punct "->", .ident field])

theorem readsOperand_found
    (k : Nat)
    (groupingAttr : List Text)
    (field : Text) :
    Cpp.Parser.ReadsOperand (foundTokens k groupingAttr field)
      (foundExpr k groupingAttr field) := by
  intro context
  have inside := readsOperand_lookup k groupingAttr
    (context.open (.arguments (.arrow (.var (dataName k)) "at")))
  have whole := Cpp.Parser.run_append_of_eq inside
    (rfl : Cpp.Parser.run _ [.punct ")", .punct "->", .ident field] = _)
  exact Cpp.Parser.run_append_of_eq rfl whole

theorem spells_found
    {groupingAttr : List Text}
    (named : ∀ attr ∈ groupingAttr, Cpp.isName attr = true)
    {field : Text}
    (isName : Cpp.isName field = true)
    (k : Nat) :
    Cpp.Spells
      ("data" ++ itoa k ++ "->at(" ++ Condition.vfindCall k "(*it)" groupingAttr ++ ")->" ++ field)
      (foundTokens k groupingAttr field) (.ident field) := by
  have vector := Cpp.Spells.name (isName_dataName k)
  have opening : Cpp.Spells ('-' :: (">at(" : Text)) [.punct "->", .ident "at", .punct "("]
      (.punct '(') := .of_closed rfl
  have lookup := spells_lookup named k
  have closing : Cpp.Spells (')' :: ("->" : Text)) [.punct ")", .punct "->"] .start :=
    .of_closed rfl
  have last := closing.append_start (.name isName)
  have inner := lookup.append rfl last
  obtain ⟨rest, text⟩ := exists_head_vfindCall k groupingAttr
  have regroup (data number opening call close last : Text) :
      data ++ number ++ '-' :: opening ++ call ++ ')' :: close ++ last =
        data ++ number ++ '-' :: (opening ++ (call ++ ')' :: (close ++ last))) := by
    simp only [List.append_assoc, List.cons_append]
  have opened : ("->at(" : Text) = '-' :: (">at(" : Text) := rfl
  have closed : (")->" : Text) = ')' :: ("->" : Text) := rfl
  have number : itoa k = numeral k := itoa_natCast k
  rw [text, List.cons_append] at inner
  have called := opening.append (rfl : Cpp.breaks (.punct '(') 'v') inner
  have whole := vector.append (Cpp.breaks_ident (by decide : identRest '-' = false) _) called
  rw [number, opened, closed, regroup, text, List.cons_append]
  exact whole

/-! ## Evaluation of lookups -/

section Evaluation

variable {env : Env} {row : Row}

/-- Further arguments of a lookup are appended to its keys. -/
theorem eval_supplyMembers
    (bound : env.rows .it = some row)
    {vectors : Nat → List Record}
    {k : Nat}
    (attributes : List Text)
    {callee : Cpp.Expr}
    {keys : List Value}
    (evaluated : Cpp.eval env callee vectors = some (.vfindOf k (some k) keys, vectors)) :
    Cpp.eval env (attributes.foldl
        (fun function attr => .supply function (Cpp.Parser.memberExpr Iter.it.name attr))
        callee) vectors =
      some (.vfindOf k (some k) (keys ++ attributes.map row), vectors) := by
  induction attributes generalizing callee keys with
  | nil => simpa using evaluated
  | cons attr attributes inductionHypothesis =>
      have argument := eval_member bound attr vectors
      have supplied : Cpp.eval env
          (.supply callee (Cpp.Parser.memberExpr Iter.it.name attr)) vectors =
            some (.vfindOf k (some k) (keys ++ [row attr]), vectors) := by
        simp only [Cpp.eval, evaluated, argument, Option.bind_some, Cpp.supplyVal, Val.asKey,
          Option.map_some]
      have later := inductionHypothesis supplied
      simpa only [List.foldl_cons, List.map_cons, List.append_assoc, List.singleton_append]
        using later

/-- A lookup evaluates to the index of the row's key. -/
theorem eval_lookup
    (bound : env.rows .it = some row)
    (k : Nat)
    (groupingAttr : List Text)
    (vectors : Nat → List Record) :
    Cpp.eval env (lookupExpr k groupingAttr) vectors =
      some (.num false (vfind env.cols (vectors k) (groupingAttr.map row)), vectors) := by
  have callee : Cpp.eval env (.supply (.var (vfindName k)) (.var (dataName k))) vectors =
      some (.vfindOf k (some k) [], vectors) := by
    simp only [Cpp.eval, env.lookup_vfindName, env.lookup_dataName, Option.map_some,
      Option.bind_some, Cpp.supplyVal]
  have supplied := eval_supplyMembers bound groupingAttr callee
  simp only [lookupExpr, Cpp.eval, supplied, Option.bind_some, Cpp.callVal, if_true,
    List.nil_append, Option.map_some]

/-- The record found by a lookup, read at a field. -/
theorem eval_found
    (bound : env.rows .it = some row)
    {k index : Nat}
    {groupingAttr : List Text}
    {vectors : Nat → List Record}
    {record : Record}
    (found : vfind env.cols (vectors k) (groupingAttr.map row) = index)
    (few : index < 2 ^ 31)
    (stored : (vectors k)[index]? = some record)
    (field : Text) :
    Cpp.eval env (foundExpr k groupingAttr field) vectors =
      some (.cell (record field) (some ⟨k, index, field⟩), vectors) := by
  have lookup := eval_lookup bound k groupingAttr vectors
  rw [found] at lookup
  have inside : index < (vectors k).length := (List.getElem?_eq_some_iff.mp stored).1
  have position : toSizeT (index : Int) = index := by
    unfold toSizeT
    omega
  have element : Cpp.eval env
      (.call (.supply (.arrow (.var (dataName k)) "at") (lookupExpr k groupingAttr))) vectors =
        some (.element k index, vectors) := by
    simp only [Cpp.eval, env.lookup_dataName, Option.map_some, Option.bind_some, Cpp.arrowVal,
      if_true, lookup, Cpp.supplyVal, Val.asNum, Cpp.callVal, position, inside]
  rw [foundExpr, Cpp.eval, element]
  simp only [Option.bind_some, Cpp.arrowVal, stored, Option.map_some]

end Evaluation

/-! ## Atoms -/

/-- An atom that compares a column with the aggregate `func` of `argument` in
the group `scanned`; `label` is the aggregate as written. -/
structure AggregateAtom where
  group : Nat
  column : Text
  operator : CmpOp
  label : Text
  scanned : Nat
  func : Text
  argument : Text
  deriving DecidableEq, Repr

namespace AggregateAtom

/-- The atom as written in the query. -/
def text (atom : AggregateAtom) : Text :=
  atomText atom.group atom.column atom.operator atom.label

/-- The aggregate it names. -/
def aggregate (atom : AggregateAtom) : Aggregate := ⟨atom.scanned, atom.func, atom.argument⟩

/-- The condition the constructor reads from it. -/
def condition (atom : AggregateAtom) : Condition :=
  ⟨atom.group, atom.column, atom.operator.exp, atom.label⟩

/-- The aggregate as read from the record that was found: through `value()`
when the label contains `avg`. -/
def valueExpr (atom : AggregateAtom) (groupingAttr : List Text) : Cpp.Expr :=
  let found := foundExpr atom.scanned groupingAttr atom.aggregate.toVar
  if contains atom.label "avg" then .call (.dot found "value") else found

/-- The expression read from the translation. -/
def expr (atom : AggregateAtom) (groupingAttr : List Text) : Cpp.Expr :=
  .binary .and
    (.binary .gt (lookupExpr atom.scanned groupingAttr) (.number (numeral 0)))
    (.binary atom.operator.binOp (operandExpr atom.column) (atom.valueExpr groupingAttr))

/-- The label is read as the aggregate and is no column of the table. -/
structure WellFormed (columns : List Column) (atom : AggregateAtom) : Prop where
  group_lt : atom.group < 2 ^ 31
  column_mem : ∃ column ∈ columns, column.name = atom.column
  parsed : Aggregate.ofText atom.label = some atom.aggregate
  characters : ∀ character ∈ atom.label, identRest character = true
  underscore : '_' ∈ atom.label
  isName_field : Cpp.isName atom.aggregate.toVar = true
  notColumn : Column.isColumn atom.label columns = false

section Translation

variable {columns : List Column} {atom : AggregateAtom}

theorem isName_column
    (named : NamedColumns columns)
    (wellFormed : atom.WellFormed columns) :
    Cpp.isName atom.column = true := by
  obtain ⟨column, member, equal⟩ := wellFormed.column_mem
  rw [← equal]
  exact named column member

/-- A character foreign to identifiers is not in the label. -/
theorem WellFormed.notMem_label
    (wellFormed : atom.WellFormed columns)
    {character : Char}
    (foreign : identRest character = false) :
    character ∉ atom.label := by
  intro member
  rw [wellFormed.characters character member] at foreign
  exact Bool.noConfusion foreign

/-- The constructor reads a well-formed atom. -/
theorem ofText_text
    (named : NamedColumns columns)
    (wellFormed : atom.WellFormed columns) :
    Condition.ofText atom.text = some atom.condition := by
  have isName := isName_column named wellFormed
  obtain ⟨first, rest, shape⟩ : ∃ first rest, atom.label = first :: rest := by
    apply List.exists_cons_of_ne_nil
    intro empty
    have underscore := wellFormed.underscore
    simp [empty] at underscore
  have inside := wellFormed.characters first (by simp [shape])
  have head : ∃ first rest, atom.label = first :: rest ∧ first ≠ '=' ∧ first ≠ '>' := by
    refine ⟨first, rest, shape, ?_, ?_⟩ <;>
      · rintro rfl
        exact absurd inside (by decide)
  have read := Condition.ofText_atomText wellFormed.group_lt
    (isOpStart_eq_false (isIdent_of_isName isName)) (separates_of_head atom.operator head)
  rw [doubleQuotes_of_notMem (wellFormed.notMem_label (by decide))] at read
  exact read

theorem spells_value
    (wellFormed : atom.WellFormed columns)
    {groupingAttr : List Text}
    (namedAttr : ∀ attr ∈ groupingAttr, Cpp.isName attr = true) :
    ∃ tokens mode,
      Cpp.Spells
        ("data" ++ itoa atom.scanned ++ "->at(" ++
          Condition.vfindCall atom.scanned "(*it)" groupingAttr ++ ")->" ++ atom.aggregate.toVar ++
          (if contains atom.label "avg" then (".value()" : Text) else [])) tokens mode ∧
      Cpp.breaks mode ')' ∧ Cpp.Parser.ReadsOperand tokens (atom.valueExpr groupingAttr) := by
  have found := spells_found namedAttr wellFormed.isName_field atom.scanned
  have reads := readsOperand_found atom.scanned groupingAttr atom.aggregate.toVar
  unfold valueExpr
  split_ifs
  · have behind : Cpp.Spells ".value()" [.punct ".", .ident "value", .punct "(", .punct ")"]
        (.punct ')') := .of_closed rfl
    exact ⟨_, _, found.append (Cpp.breaks_ident (by decide : identRest '.' = false) _) behind, rfl,
      reads.methodCall _⟩
  · refine ⟨_, .ident atom.aggregate.toVar, ?_, Cpp.breaks_ident (by decide) _, reads⟩
    rw [List.append_nil]
    exact found

/-- `toCpp` translates a well-formed atom through the aggregate branch, and its
text is read as the atom's expression. -/
theorem toCpp_writes
    (named : NamedColumns columns)
    (wellFormed : atom.WellFormed columns)
    {groupingAttr : List Text}
    (namedAttr : ∀ attr ∈ groupingAttr, Cpp.isName attr = true) :
    ∃ text, atom.condition.toCpp "(*it)" "(*xt)" groupingAttr columns = some text ∧
      Cpp.Writes text (atom.expr groupingAttr) := by
  have isAggregate : Aggregate.isAggregate atom.condition.value = true :=
    (Aggregate.isAggregate_eq_true _).mpr wellFormed.underscore
  have notColumn : Column.isColumn atom.condition.value columns = false := wellFormed.notColumn
  have parsed : Aggregate.ofText atom.condition.value = some atom.aggregate := wellFormed.parsed
  refine ⟨atom.condition.aggregateCpp "(*it)" groupingAttr atom.aggregate, ?_, ?_⟩
  · rw [Condition.toCpp, notColumn, if_neg Bool.false_ne_true, if_pos isAggregate, parsed]
    rfl
  · obtain ⟨valueTokens, valueMode, valueSpelled, valueEnds, valueReads⟩ :=
      atom.spells_value wellFormed namedAttr
    obtain ⟨tokens, spelled, reads⟩ := spells_comparison (isName_column named wellFormed)
      (rfl : atom.condition.exp = atom.operator.exp) (wellFormed.notMem_label (by decide))
      valueSpelled valueReads.readsSum
    have lookup := spells_lookup namedAttr atom.scanned
    have isInfix : Cpp.Parser.Infix ">" .gt := fun _ _ => rfl
    have test := (readsOperand_lookup atom.scanned groupingAttr).compare isInfix (.inr rfl)
      (Cpp.Parser.ReadsOperand.number (numeral 0)).readsSum
    have whole := (test.conjunction reads).readsCondition
    refine ⟨_, .punct ')', ?_, rfl, whole⟩
    have opening : Cpp.Spells "(" [.punct "("] (.punct '(') := .of_closed rfl
    have middle : Cpp.Spells (' ' :: ("> 0 && " : Text))
        [.punct ">", .number (numeral 0), .punct "&&"] .start := .of_closed rfl
    have closing : Cpp.Spells [')'] [.punct ")"] (.punct ')') := .of_closed rfl
    have regroup (call test comparison : Text) :
        '(' :: call ++ ' ' :: test ++ comparison ++ [')'] =
          '(' :: (call ++ ' ' :: (test ++ (comparison ++ [')']))) := by
      simp only [List.append_assoc, List.cons_append]
    have regroupTokens (call comparison : List Cpp.Token) (close : Cpp.Token) :
        [.punct "("] ++ (call ++ ([.punct ">", .number (numeral 0), .punct "&&"] ++
            (comparison ++ [close]))) =
          .punct "(" :: ((call ++ [.punct ">", .number (numeral 0)]) ++
            .punct "&&" :: (comparison ++ [close])) := by
      simp only [List.append_assoc, List.cons_append, List.nil_append]
    rw [← regroupTokens]
    obtain ⟨comparison, text, compared⟩ : ∃ comparison : Text,
        atom.condition.aggregateCpp "(*it)" groupingAttr atom.aggregate =
          '(' :: (Condition.vfindCall atom.scanned "(*it)" groupingAttr ++
            ' ' :: ("> 0 && " ++ (comparison ++ [')']))) ∧
          Cpp.Spells comparison tokens valueMode :=
      ⟨_, regroup .., spelled⟩
    have behind := lookup.append rfl (middle.append_start (compared.append valueEnds closing))
    obtain ⟨rest, head⟩ := exists_head_vfindCall atom.scanned groupingAttr
    rw [text]
    rw [head] at behind ⊢
    exact opening.append (rfl : Cpp.breaks (.punct '(') 'v') behind

/-- The guard of the atom evaluated on loop rows and group vectors. -/
def test
    (atom : AggregateAtom)
    (env : Env)
    (groupingAttr : List Text)
    (columns : List Column)
    (vectors : Nat → List Record) : Option (Bool × (Nat → List Record)) :=
  ((Condition.ofText atom.text).bind fun condition =>
    condition.toCpp "(*it)" "(*xt)" groupingAttr columns).bind fun text =>
      Cpp.condition env text vectors

/-- The guard of a well-formed atom evaluates as the atom's expression. -/
theorem test_eq
    (named : NamedColumns columns)
    (wellFormed : atom.WellFormed columns)
    {groupingAttr : List Text}
    (namedAttr : ∀ attr ∈ groupingAttr, Cpp.isName attr = true)
    (env : Env)
    (vectors : Nat → List Record) :
    atom.test env groupingAttr columns vectors =
      (Cpp.eval env (atom.expr groupingAttr) vectors).bind fun result =>
        result.1.truth.map (·, result.2) := by
  obtain ⟨text, translated, writes⟩ := toCpp_writes named wellFormed namedAttr
  have read : Cpp.read text = some (atom.expr groupingAttr) := by
    have line := Cpp.read_line .nil writes
    simpa [Cpp.lineTail, Precedence.chain] using line
  simp only [test, ofText_text named wellFormed, Option.bind_some, translated, Cpp.condition, read]

end Translation

/-! ## Evaluation -/

section Evaluation

variable {columns : List Column} {atom : AggregateAtom} {groupingAttr : List Text} {env : Env}
  {row : Row} {vectors : Nat → List Record}

/-- Whether a record was found is evaluated first. -/
theorem eval_expr
    (atom : AggregateAtom)
    (bound : env.rows .it = some row)
    (groupingAttr : List Text)
    (vectors : Nat → List Record) :
    Cpp.eval env (atom.expr groupingAttr) vectors =
      if 0 < vfind env.cols (vectors atom.scanned) (groupingAttr.map row) then
        (Cpp.eval env (.binary atom.operator.binOp (operandExpr atom.column)
          (atom.valueExpr groupingAttr)) vectors).bind fun result =>
            result.1.truth.map fun holds => (.bool holds, result.2)
      else some (.bool false, vectors) := by
  have lookup := eval_lookup bound atom.scanned groupingAttr vectors
  have zero : Cpp.eval env (.number (numeral 0)) vectors = some (.num false 0, vectors) := rfl
  have compared := eval_binOp lookup .gt (.number (numeral 0))
  rw [zero, Option.bind_some, CmpOp.apply_binOp .gt rfl rfl] at compared
  have test : Cpp.eval env
      (.binary .gt (lookupExpr atom.scanned groupingAttr) (.number (numeral 0))) vectors =
        some (.bool (decide (0 < vfind env.cols (vectors atom.scanned) (groupingAttr.map row))),
          vectors) := compared
  rw [expr, Cpp.eval, test]
  simp only [Option.bind_some, Val.truth, decide_eq_true_eq]

/-- What the field of an aggregate holds: a number, or count and sum of an
average, or nothing yet. -/
def Stores (func : Text) : Value → Prop
  | .zero => True
  | .int _ => func ≠ "avg".toList
  | .avg _ _ => func = "avg".toList
  | .str _ => False

/-- The value of an aggregate from its field. -/
def valueOf (func : Text) (content : Value) : Int :=
  if func = "avg".toList then content.average.asInt else content.asInt

/-- The names tell the types: the column is no `Average`, and the label
contains `avg` exactly for an average. -/
def NamesTell (atom : AggregateAtom) : Prop :=
  contains atom.column "avg" = false ∧
    (contains atom.label "avg" = true ↔ atom.func = "avg".toList)

/-- The comparison of the atom on a row and a record. -/
def compares (atom : AggregateAtom) (row record : Record) : Bool :=
  atom.operator.holds (row atom.column).asInt
    (valueOf atom.func (record atom.aggregate.toVar))

/-- The comparison with the record that was found. -/
theorem eval_comparison
    (tells : atom.NamesTell)
    (bound : env.rows .it = some row)
    {content : Int}
    (column : row atom.column = .int content)
    {index : Nat}
    (found : vfind env.cols (vectors atom.scanned) (groupingAttr.map row) = index)
    (few : index < 2 ^ 31)
    {record : Record}
    (stored : (vectors atom.scanned)[index]? = some record)
    (stores : Stores atom.func (record atom.aggregate.toVar)) :
    Cpp.eval env (.binary atom.operator.binOp (operandExpr atom.column)
        (atom.valueExpr groupingAttr)) vectors =
      some (.bool (atom.compares row record), vectors) := by
  have left := eval_operand tells.1 bound vectors
  have leftNum : (Val.cell (row atom.column) none).asNum = some (true, content) := by
    rw [column]
    rfl
  have read := eval_found bound found few stored atom.aggregate.toVar
  -- the aggregate is read at the type its name tells
  obtain ⟨value, right, rightNum⟩ : ∃ value,
      Cpp.eval env (atom.valueExpr groupingAttr) vectors = some (value, vectors) ∧
        value.asNum = some (true, valueOf atom.func (record atom.aggregate.toVar)) := by
    unfold valueExpr valueOf
    by_cases average : atom.func = "avg".toList
    · rw [if_pos (tells.2.mpr average), if_pos average]
      refine ⟨.num true (record atom.aggregate.toVar).average.asInt, ?_, rfl⟩
      have method : Cpp.dotVal (.cell (record atom.aggregate.toVar)
          (some ⟨atom.scanned, index, atom.aggregate.toVar⟩)) "value" =
            some (.valueOf (record atom.aggregate.toVar)) := by
        cases shape : record atom.aggregate.toVar with
        | zero => rfl
        | avg count sum => rfl
        | int value =>
            rw [shape] at stores
            exact (stores average).elim
        | str text =>
            rw [shape] at stores
            exact stores.elim
      rw [Cpp.eval, Cpp.eval, read]
      simp only [Option.bind_some, method, Option.map_some, Cpp.callVal]
    · rw [if_neg (fun inside => average (tells.2.mp inside)), if_neg average]
      refine ⟨_, read, ?_⟩
      cases shape : record atom.aggregate.toVar with
      | zero => rfl
      | int value => rfl
      | avg count sum =>
          rw [shape] at stores
          exact (average stores).elim
      | str text =>
          rw [shape] at stores
          exact stores.elim
  rw [eval_binOp left, right, Option.bind_some, atom.operator.apply_binOp leftNum rightNum,
    compares, column]
  rfl

/-- A comparison whose operands the names mistype has no value. -/
theorem eval_comparison_of_not_namesTell
    (labelled : atom.func = "avg".toList → contains atom.label "avg" = true)
    (mistyped : ¬atom.NamesTell)
    (bound : env.rows .it = some row)
    (column : Stored .int64 (row atom.column))
    {index : Nat}
    (found : vfind env.cols (vectors atom.scanned) (groupingAttr.map row) = index)
    (few : index < 2 ^ 31)
    {record : Record}
    (stored : (vectors atom.scanned)[index]? = some record)
    (stores : Stores atom.func (record atom.aggregate.toVar))
    (filled : record atom.aggregate.toVar ≠ .zero) :
    Cpp.eval env (.binary atom.operator.binOp (operandExpr atom.column)
        (atom.valueExpr groupingAttr)) vectors = none := by
  cases average : contains atom.column "avg" with
  | true =>
      apply eval_binOp_of_left_none
      exact eval_operand_average average bound column vectors
  | false =>
      have left := eval_operand average bound vectors
      have read := eval_found bound found few stored atom.aggregate.toVar
      have inLabel : contains atom.label "avg" = true := by
        by_contra absent
        exact mistyped ⟨average, fun inside => (absent inside).elim,
          fun isAverage => (absent (labelled isAverage)).elim⟩
      have notAverage : atom.func ≠ "avg".toList := fun isAverage =>
        mistyped ⟨average, fun _ => isAverage, fun _ => inLabel⟩
      have noValue : Cpp.dotVal (.cell (record atom.aggregate.toVar)
          (some ⟨atom.scanned, index, atom.aggregate.toVar⟩)) "value" = none := by
        cases shape : record atom.aggregate.toVar with
        | zero => exact (filled shape).elim
        | int value => rfl
        | avg count sum =>
            rw [shape] at stores
            exact (notAverage stores).elim
        | str text => rfl
      have right : Cpp.eval env (atom.valueExpr groupingAttr) vectors = none := by
        rw [valueExpr, if_pos inLabel, Cpp.eval, Cpp.eval, read]
        simp only [Option.bind_some, noValue, Option.map_none, Option.bind_none]
      rw [eval_binOp left, right, Option.bind_none]

end Evaluation

/-! ## The record of a key -/

/-- The record has the key of the row. -/
def hasKeyOf (groupingAttr : List Text) (row record : Record) : Bool :=
  decide (keyOf groupingAttr record = keyOf groupingAttr row)

/-- What the atom says of a row: its key has a record in the vector, and the
comparison holds there. -/
def holds
    (atom : AggregateAtom)
    (groupingAttr : List Text)
    (row : Row)
    (data : List Record) : Bool :=
  (data.find? (hasKeyOf groupingAttr row)).any (atom.compares row)

/-- The row and the vector the guard reads: keys and fields of their types,
and no more records than an `int` can count. -/
structure Reads (atom : AggregateAtom) (cols : List Ct) (row : Row) (data : List Record) :
    Prop where
  keys : KeyTyped cols (row :: data)
  few : data.length < 2 ^ 31
  column : Stored .int64 (row atom.column)
  stores : ∀ record ∈ data, Stores atom.func (record atom.aggregate.toVar)

section Position

variable {atom : AggregateAtom} {cols : List Ct} {row : Row} {data : List Record}

/-- `vfind` compares keys. -/
theorem Reads.argumentsMatch_eq
    (reads : atom.Reads cols row data)
    {record : Record}
    (member : record ∈ data) :
    argumentsMatch cols ((cols.map Ct.name).map row) record =
      hasKeyOf (cols.map Ct.name) row record := by
  have typed : KeyTyped cols [row, record] := reads.keys.subset (by simp [member])
  rw [Bool.eq_iff_iff, hasKeyOf, decide_eq_true_eq]
  exact argumentsMatch_eq_true_iff typed

/-- A key without a record is not found. -/
theorem Reads.vfind_of_find?_eq_none
    (reads : atom.Reads cols row data)
    (absent : data.find? (hasKeyOf (cols.map Ct.name) row) = none) :
    vfind cols data ((cols.map Ct.name).map row) = -1 := by
  have nowhere : data.findIdx? (argumentsMatch cols ((cols.map Ct.name).map row)) = none := by
    rw [List.findIdx?_eq_none_iff]
    intro record member
    rw [reads.argumentsMatch_eq member]
    simpa using List.find?_eq_none.mp absent record member
  rw [vfind, nowhere]

/-- The record of a key is found at its index. -/
theorem Reads.exists_vfind_eq
    (reads : atom.Reads cols row data)
    {record : Record}
    (present : data.find? (hasKeyOf (cols.map Ct.name) row) = some record) :
    ∃ index : Nat, vfind cols data ((cols.map Ct.name).map row) = index ∧ index < 2 ^ 31 ∧
      data[index]? = some record ∧
      (0 < index → ∀ first ∈ data.head?, hasKeyOf (cols.map Ct.name) row first = false) := by
  obtain ⟨same, index, inside, here, earlier⟩ := List.find?_eq_some_iff_getElem.mp present
  have small : index < 2 ^ 31 := inside.trans reads.few
  have found : data.findIdx? (argumentsMatch cols ((cols.map Ct.name).map row)) = some index := by
    rw [List.findIdx?_eq_some_iff_getElem]
    refine ⟨inside, ?_, ?_⟩
    · rw [reads.argumentsMatch_eq (List.getElem_mem inside), here]
      exact same
    · intro other before
      rw [reads.argumentsMatch_eq (List.getElem_mem _)]
      simpa using earlier other before
  refine ⟨index, ?_, small, ?_, ?_⟩
  · rw [vfind, found]
    exact wrap32_of_bounds (by omega) (by omega)
  · rw [List.getElem?_eq_getElem inside, here]
  · intro positive first head
    have atZero := earlier 0 positive
    rw [List.head?_eq_getElem?, List.getElem?_eq_getElem (by omega)] at head
    cases head
    simpa using atZero

end Position

/-! ## When the guard is right -/

section Guard

variable {columns : List Column} {atom : AggregateAtom} {cols : List Ct} {env : Env} {row : Row}
  {vectors : Nat → List Record}

/-- Where the names tell the types, the guard says what the atom says unless
the record stands at index zero and the comparison holds there. -/
theorem test_eq_holds_iff
    (named : NamedColumns columns)
    (wellFormed : atom.WellFormed columns)
    (namedAttr : ∀ attr ∈ cols.map Ct.name, Cpp.isName attr = true)
    (tells : atom.NamesTell)
    (typedBy : env.cols = cols)
    (bound : env.rows .it = some row)
    (reads : atom.Reads cols row (vectors atom.scanned)) :
    atom.test env (cols.map Ct.name) columns vectors =
        some (atom.holds (cols.map Ct.name) row (vectors atom.scanned), vectors) ↔
      ¬∃ first ∈ (vectors atom.scanned).head?,
        hasKeyOf (cols.map Ct.name) row first = true ∧ atom.compares row first = true := by
  subst typedBy
  rw [test_eq named wellFormed namedAttr, atom.eval_expr bound]
  cases present : (vectors atom.scanned).find? (hasKeyOf (env.cols.map Ct.name) row) with
  | none =>
      rw [reads.vfind_of_find?_eq_none present, if_neg (by decide), holds, present]
      simp only [Option.bind_some, Val.truth, Option.map_some, Option.any_none, true_iff]
      rintro ⟨first, head, same, -⟩
      exact List.find?_eq_none.mp present first (List.mem_of_head? head) same
  | some record =>
      obtain ⟨index, found, few, stored, before⟩ := reads.exists_vfind_eq present
      have inside : record ∈ vectors atom.scanned := List.mem_of_getElem? stored
      rw [found, holds, present]
      by_cases zero : index = 0
      · subst zero
        have first : (vectors atom.scanned).head? = some record := by
          rw [List.head?_eq_getElem?, stored]
        have same : hasKeyOf (env.cols.map Ct.name) row record = true := List.find?_some present
        rw [if_neg (by simp), first]
        simp [Val.truth, same]
      · have positive : 0 < index := Nat.pos_of_ne_zero zero
        obtain ⟨content, column⟩ : ∃ content, row atom.column = .int content := by
          have stored := reads.column
          cases shape : row atom.column with
          | int content => exact ⟨content, rfl⟩
          | _ => simp [shape, Stored] at stored
        rw [if_pos (by exact_mod_cast positive), eval_comparison tells bound column found few stored
          (reads.stores record inside)]
        simp only [Option.bind_some, Val.truth, Option.map_some, Option.any_some, true_iff]
        rintro ⟨first, head, same, -⟩
        rw [before positive first head] at same
        exact Bool.noConfusion same

/-- Where the names mistype an operand, the guard has no value on any record
behind the first one. -/
theorem test_eq_none
    (named : NamedColumns columns)
    (wellFormed : atom.WellFormed columns)
    (namedAttr : ∀ attr ∈ cols.map Ct.name, Cpp.isName attr = true)
    (labelled : atom.func = "avg".toList → contains atom.label "avg" = true)
    (mistyped : ¬atom.NamesTell)
    (typedBy : env.cols = cols)
    (bound : env.rows .it = some row)
    (reads : atom.Reads cols row (vectors atom.scanned))
    {record : Record}
    (present : (vectors atom.scanned).find? (hasKeyOf (cols.map Ct.name) row) = some record)
    (later : ∀ first ∈ (vectors atom.scanned).head?,
      hasKeyOf (cols.map Ct.name) row first = false)
    (filled : record atom.aggregate.toVar ≠ .zero) :
    atom.test env (cols.map Ct.name) columns vectors = none := by
  subst typedBy
  obtain ⟨index, found, few, stored, -⟩ := reads.exists_vfind_eq present
  have inside : record ∈ vectors atom.scanned := List.mem_of_getElem? stored
  have positive : 0 < index := by
    apply Nat.pos_of_ne_zero
    rintro rfl
    have same : hasKeyOf (env.cols.map Ct.name) row record = true := List.find?_some present
    rw [later record (by rw [List.head?_eq_getElem?, stored]; rfl)] at same
    exact Bool.noConfusion same
  rw [test_eq named wellFormed namedAttr, atom.eval_expr bound, found,
    if_pos (by exact_mod_cast positive),
    eval_comparison_of_not_namesTell labelled mistyped bound reads.column found few stored
      (reads.stores record inside) filled]
  rfl

end Guard

/-! ## Written aggregates -/

/-- The functions whose values are compared as numbers. -/
def scalarFuncs : List Text := ["sum", "count", "avg"]

/-- The aggregate as written: with its group, or for group zero also without
it when that is no column's name. -/
def Labels (columns : List Column) (scanned : Nat) (func argument label : Text) : Prop :=
  label = joinWith '_' [numeral scanned, func, argument] ∨
    scanned = 0 ∧ label = joinWith '_' [func, argument] ∧ Column.isColumn label columns = false

theorem scalarFunc_spec
    {func : Text}
    (supported : func ∈ scalarFuncs) :
    isIdent func = true ∧ '_' ∉ func ∧ func ≠ [] ∧ 3 ≤ func.length := by
  simp only [scalarFuncs, List.mem_cons, List.not_mem_nil, or_false] at supported
  rcases supported with rfl | rfl | rfl <;> decide

/-- An atom with a written aggregate over a column of the table is well
formed. -/
theorem wellFormed_of_labels
    {columns : List Column}
    (named : NamedColumns columns)
    {column argument : Column}
    (inTable : column ∈ columns)
    (argumentInTable : argument ∈ columns)
    (plain : '_' ∉ argument.name)
    {func label : Text}
    (supported : func ∈ scalarFuncs)
    {group scanned : Nat}
    (earlier : scanned < group)
    (group_lt : group < 2 ^ 31)
    (labels : Labels columns scanned func argument.name label)
    (operator : CmpOp) :
    AggregateAtom.WellFormed columns
      ⟨group, column.name, operator, label, scanned, func, argument.name⟩ := by
  obtain ⟨funcIdent, funcPlain, funcPresent, funcLong⟩ := scalarFunc_spec supported
  have argumentIdent := isIdent_of_isName (named argument argumentInTable)
  have argumentPresent := ne_nil_of_isIdent argumentIdent
  have visible := exists_visible_of_isIdent argumentIdent
  have numberPlain : '_' ∉ numeral scanned := notMem_numeral (by decide) _
  have funcChars (character : Char) (member : character ∈ func) : identRest character = true :=
    identRest_of_mem funcIdent member
  have argumentChars (character : Char) (member : character ∈ argument.name) :
      identRest character = true := identRest_of_mem argumentIdent member
  have numberChars (character : Char) (member : character ∈ numeral scanned) :
      identRest character = true := by
    simp [identRest, Char.isAlphanum, isDigit_of_mem_numeral member]
  have isNameField : Cpp.isName (Aggregate.toVar ⟨scanned, func, argument.name⟩) = true := by
    have identifier : isIdent (func ++ '_' :: argument.name) = true := by
      apply isIdent_append funcIdent
      intro character member
      rcases List.mem_cons.mp member with rfl | inside
      · decide
      · exact argumentChars character inside
    have long : 3 < (func ++ '_' :: argument.name).length := by
      simp only [List.length_append, List.length_cons]
      omega
    simpa [Aggregate.toVar] using isName_of_length identifier long
  rcases labels with rfl | ⟨rfl, rfl, notColumn⟩
  · have fields : Fields '_' [numeral scanned, func, argument.name] :=
      { nonempty := by simp [funcPresent, argumentPresent, numeral_ne_nil]
        free := by simp [funcPlain, plain, numberPlain]
        visible := by simpa using visible }
    have exploded := cExplode_join '_' [numeral scanned, func, argument.name] (by simp) fields
    have small : scanned < 2 ^ 31 := earlier.trans group_lt
    refine ⟨group_lt, ⟨column, inTable, rfl⟩, ?_, ?_, by simp [joinWith], isNameField, ?_⟩
    · simp [Aggregate.ofText, exploded, atoi_numeral small, aggregate]
    · intro character member
      simp only [joinWith, List.mem_append, List.mem_cons] at member
      rcases member with number | rfl | inFunc | rfl | inArgument
      · exact numberChars character number
      · decide
      · exact funcChars character inFunc
      · decide
      · exact argumentChars character inArgument
    · rw [Bool.eq_false_iff]
      intro isColumn
      rw [Column.isColumn_eq_true] at isColumn
      obtain ⟨other, member, equal⟩ := isColumn
      obtain ⟨first, rest, shape, start⟩ :=
        exists_identStart_mem (isIdent_of_isName (named other member))
      obtain ⟨digit, digits, numberShape⟩ := List.exists_cons_of_ne_nil (numeral_ne_nil scanned)
      have member : digit ∈ numeral scanned := by simp [numberShape]
      have isDigit : digit.isDigit = true := isDigit_of_mem_numeral member
      rw [shape, joinWith, numberShape, List.cons_append] at equal
      obtain ⟨rfl, -⟩ := List.cons.inj equal
      rw [identStart_eq_false_of_isDigit isDigit] at start
      exact Bool.noConfusion start
  · have fields : Fields '_' [func, argument.name] :=
      { nonempty := by simp [funcPresent, argumentPresent]
        free := by simp [funcPlain, plain]
        visible := by simpa using visible }
    have exploded := cExplode_join '_' [func, argument.name] (by simp) fields
    refine ⟨group_lt, ⟨column, inTable, rfl⟩, ?_, ?_, by simp [joinWith], isNameField, notColumn⟩
    · simp [Aggregate.ofText, exploded, aggregate]
    · intro character member
      simp only [joinWith, List.mem_append, List.mem_cons] at member
      rcases member with inFunc | rfl | inArgument
      · exact funcChars character inFunc
      · decide
      · exact argumentChars character inArgument

/-- A written average contains `avg`. -/
theorem contains_avg_of_labels
    {columns : List Column}
    {scanned : Nat}
    {func argument label : Text}
    (labels : Labels columns scanned func argument label)
    (average : func = "avg".toList) :
    contains label "avg" = true := by
  subst average
  rw [contains_eq_true]
  rcases labels with rfl | ⟨-, rfl, -⟩
  · exact ⟨numeral scanned ++ ['_'], '_' :: argument, by simp [joinWith]⟩
  · exact ⟨[], '_' :: argument, by simp [joinWith]⟩

/-- On the row, the guard is true exactly when the atom holds. -/
def IsRight
    (atom : AggregateAtom)
    (cols : List Ct)
    (columns : List Column)
    (row : Row)
    (vectors : Nat → List Record) : Prop :=
  ∀ env : Env, env.cols = cols → env.rows .it = some row →
    atom.test env (cols.map Ct.name) columns vectors =
      some (atom.holds (cols.map Ct.name) row (vectors atom.scanned), vectors)

end AggregateAtom

/-- The guard of `column op scanned_func_argument` is right on a row unless the
record of the row's key is the first one and the comparison holds there,
provided the names tell the types. Where they do not, the guard has no value
on any later record. -/
theorem aggregate_guard_iff
    (columns : List Column)
    (cols : List Ct)
    (column argument : Column)
    (group scanned : Nat)
    (operator : CmpOp)
    (func label : Text)
    (named : NamedColumns columns)
    (inTable : column ∈ columns)
    (argumentInTable : argument ∈ columns)
    (plain : '_' ∉ argument.name)
    (keyColumns : ∀ col ∈ cols, ∃ other ∈ columns, other.name = col.name)
    (supported : func ∈ AggregateAtom.scalarFuncs)
    (earlier : scanned < group)
    (group_lt : group < 2 ^ 31)
    (labels : AggregateAtom.Labels columns scanned func argument.name label)
    (row : Row)
    (vectors : Nat → List Record)
    (atom : AggregateAtom)
    (isAtom : atom = ⟨group, column.name, operator, label, scanned, func, argument.name⟩)
    (reads : atom.Reads cols row (vectors scanned)) :
    (atom.NamesTell →
      (atom.IsRight cols columns row vectors ↔
        ¬∃ first ∈ (vectors scanned).head?,
          AggregateAtom.hasKeyOf (cols.map Ct.name) row first = true ∧
            atom.compares row first = true)) ∧
    (¬atom.NamesTell → ∀ record,
      (vectors scanned).find? (AggregateAtom.hasKeyOf (cols.map Ct.name) row) = some record →
      (∀ first ∈ (vectors scanned).head?,
        AggregateAtom.hasKeyOf (cols.map Ct.name) row first = false) →
      record atom.aggregate.toVar ≠ .zero → ¬atom.IsRight cols columns row vectors) := by
  have wellFormed := AggregateAtom.wellFormed_of_labels named inTable argumentInTable plain
    supported earlier group_lt labels operator
  rw [← isAtom] at wellFormed
  have namedAttr : ∀ attr ∈ cols.map Ct.name, Cpp.isName attr = true := by
    intro attr member
    obtain ⟨col, inCols, rfl⟩ := List.mem_map.mp member
    obtain ⟨other, inColumns, equal⟩ := keyColumns col inCols
    rw [← equal]
    exact named other inColumns
  have sameScanned : atom.scanned = scanned := by rw [isAtom]
  have average : atom.func = "avg".toList → contains atom.label "avg" = true := by
    rw [isAtom]
    exact AggregateAtom.contains_avg_of_labels labels
  rw [← sameScanned] at reads ⊢
  constructor
  · intro tells
    constructor
    · intro right
      have evaluated := right ⟨cols, rowsOf (some row) none, none⟩ rfl rfl
      exact (AggregateAtom.test_eq_holds_iff named wellFormed namedAttr tells rfl rfl reads).mp
        evaluated
    · intro notFirst env typedBy bound
      exact (AggregateAtom.test_eq_holds_iff named wellFormed namedAttr tells typedBy bound
        reads).mpr notFirst
  · intro mistyped record present later filled right
    have evaluated := right ⟨cols, rowsOf (some row) none, none⟩ rfl rfl
    rw [AggregateAtom.test_eq_none named wellFormed namedAttr average mistyped rfl rfl reads
      present later filled] at evaluated
    cases evaluated

/-- The records of two customers with their number of sales. -/
def countedSales : Nat → List Record
  | 0 => [(rowWith "cust" (.str "A")).set "count_quant" (.int 3),
      (rowWith "cust" (.str "B")).set "count_quant" (.int 1)]
  | _ => []

/-- A sale. -/
def saleRow (cust : Text) (quant : Int) : Row :=
  (rowWith "cust" (.str cust)).set "quant" (.int quant)

/-- `quant > 0_count_quant`. -/
def quantAboveCount : AggregateAtom :=
  ⟨1, "quant", .gt, "0_count_quant", 0, "count", "quant"⟩

/-- The guard is right on a sale of the second customer, whose record is not
the first. -/
theorem aggregate_guard_iff_sale :
    quantAboveCount.IsRight [⟨"cust", .string⟩] saleColumns (saleRow "B" 9) countedSales := by
  have reads : quantAboveCount.Reads [⟨"cust", .string⟩] (saleRow "B" 9) (countedSales 0) := by
    refine ⟨?_, by decide, ⟨by decide, by decide⟩, ?_⟩
    · intro col member
      rw [List.mem_singleton.mp member]
      refine ⟨.inl rfl, ?_⟩
      intro row inside
      simp only [List.mem_cons, countedSales, List.not_mem_nil, or_false] at inside
      rcases inside with rfl | rfl | rfl <;> exact ⟨_, rfl⟩
    · intro record inside
      simp only [List.mem_cons, countedSales, List.not_mem_nil, or_false] at inside
      rcases inside with rfl | rfl <;> exact (by decide : "count".toList ≠ "avg".toList)
  refine ((aggregate_guard_iff saleColumns [⟨"cust", .string⟩] ⟨"quant", .int⟩ ⟨"quant", .int⟩ 1 0
    .gt "count" "0_count_quant" namedColumns_saleColumns (by decide) (by decide) (by decide)
    (by decide) (by decide) (by decide) (by decide) (.inl (by decide)) (saleRow "B" 9) countedSales
    quantAboveCount rfl reads).1 ⟨by decide, by decide⟩).mpr ?_
  rintro ⟨first, head, same, -⟩
  cases head
  exact absurd same (by decide)

/-- The first customer bought twenty, more than its three sales, and its guard
is false. -/
theorem first_group_rejected :
    (quantAboveCount.test (⟨[⟨"cust", .string⟩], rowsOf (some (saleRow "A" 20)) none, none⟩)
        ["cust"] saleColumns countedSales).map Prod.fst = some false ∧
      quantAboveCount.holds ["cust"] (saleRow "A" 20) (countedSales 0) = true := by
  constructor
  · decide +kernel
  · decide

end MfQuery
