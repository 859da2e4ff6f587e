import MfQuery.Names
import MfQuery.Program.Syntax

/-!
# Every aggregate is computed

An aggregate of the F-vector is declared in the structure of its group and
updated in the scan of its group. The scans dispatch on the function name
through a chain without a final alternative, so that an unknown function is
declared and printed but never computed; a repeated entry is updated twice.
-/

namespace MfQuery

open Text

/-! ## Entries of the F-vector -/

/-- An entry `group_func_column` or `func_column`. -/
structure FEntry where
  label : Option Int
  func : Text
  column : Text
  label_int : ∀ group ∈ label, -2 ^ 31 ≤ group ∧ group < 2 ^ 31
  func_ne_nil : func ≠ []
  func_plain : '_' ∉ func
  column_ne_nil : column ≠ []
  column_plain : '_' ∉ column

namespace FEntry

/-- The entry as written. -/
def text (entry : FEntry) : Text :=
  match entry.label with
  | none => entry.func ++ '_' :: entry.column
  | some group => itoa group ++ '_' :: (entry.func ++ '_' :: entry.column)

/-- The aggregate it stands for. -/
def aggregate (entry : FEntry) : Aggregate :=
  ⟨entry.label.getD 0, entry.func, entry.column⟩

/-- The column is not only spaces and line ends. -/
def Visible (entry : FEntry) : Prop := ∃ character ∈ entry.column, isBlank character = false

theorem ofText_text
    {entry : FEntry}
    (visible : entry.Visible) :
    Aggregate.ofText entry.text = some entry.aggregate := by
  unfold text aggregate
  cases labelled : entry.label with
  | none =>
      exact Aggregate.ofText_pair entry.func_ne_nil entry.func_plain entry.column_plain visible
  | some group =>
      obtain ⟨lower, upper⟩ := entry.label_int group labelled
      have read := Aggregate.ofText_triple (itoa_ne_nil group)
        (notMem_itoa (by decide) (by decide) group) entry.func_ne_nil entry.func_plain
        entry.column_plain visible
      rw [atoi_itoa lower upper] at read
      exact read

/-- A blank column is dropped: the group is taken for the function. -/
theorem ofText_blank
    {entry : FEntry}
    (blank : ¬entry.Visible) :
    Aggregate.ofText entry.text = entry.label.map fun group => ⟨0, itoa group, entry.func⟩ := by
  obtain ⟨first, rest, shape⟩ := List.exists_cons_of_ne_nil entry.column_ne_nil
  have restPlain : '_' ∉ rest := by
    intro member
    exact entry.column_plain (shape ▸ List.mem_cons_of_mem _ member)
  have nothing : trim entry.column = [] := by
    rw [trim_eq_dropWhile, List.dropWhile_eq_nil_iff]
    intro character member
    by_contra visible
    exact blank ⟨character, member, Bool.eq_false_of_not_eq_true visible⟩
  have dropped : cExplodeLoop '_' [first] rest = [] := by
    rw [cExplodeLoop_last '_' [first] rest restPlain, List.singleton_append, ← shape, nothing]
    rfl
  unfold text
  cases entry.label with
  | none =>
      have exploded : cExplode '_' (entry.func ++ '_' :: entry.column) = some [entry.func] := by
        rw [cExplode, if_neg (by simp), shape,
          cExplodeLoop_field '_' first [] entry.func rest entry.func_plain, dropped]
        rfl
      simp [Aggregate.ofText, exploded]
  | some group =>
      obtain ⟨head, tail, begins⟩ := List.exists_cons_of_ne_nil entry.func_ne_nil
      have tailPlain : '_' ∉ tail := by
        intro member
        exact entry.func_plain (begins ▸ List.mem_cons_of_mem _ member)
      have front := cExplodeLoop_field '_' head [] (itoa group) (tail ++ '_' :: entry.column)
        (notMem_itoa (by decide) (by decide) group)
      have later := cExplodeLoop_field '_' first [head] tail rest tailPlain
      have exploded : cExplode '_' (itoa group ++ '_' :: (entry.func ++ '_' :: entry.column)) =
          some [itoa group, entry.func] := by
        rw [cExplode, if_neg (by simp), begins, List.cons_append, front, shape, later, dropped]
        rfl
      simp [Aggregate.ofText, exploded]

end FEntry

/-! ## Updates of a program -/

/-- The aggregates a statement updates, in the order of the updates. -/
def Stmt.updates : Stmt → List Aggregate
  | update aggregate _ => if aggregate.update = .none then [] else [aggregate]
  | seq first second => first.updates ++ second.updates
  | guarded _ _ body => body.updates
  | loop _ body => body.updates
  | _ => []

/-- The update writes the field of this aggregate. -/
def Aggregate.sameField (aggregate other : Aggregate) : Bool :=
  decide (other.group = aggregate.group ∧ other.toVar = aggregate.toVar)

/-- The scans that update the field of an aggregate, one entry for every
update. -/
def Program.updatingScans (program : Program) (aggregate : Aggregate) : List Nat :=
  (List.range program.scans.length).flatMap fun i =>
    List.replicate (((program.scans[i]?).elim [] Stmt.updates).countP aggregate.sameField) i

theorem Stmt.updates_block (statements : List Stmt) :
    (Stmt.block statements).updates = statements.flatMap Stmt.updates := by
  induction statements with
  | nil => rfl
  | cons statement rest inductionHypothesis =>
      rw [Stmt.block, Stmt.updates, inductionHypothesis, List.flatMap_cons]

namespace ScanGenerator

variable (generator : ScanGenerator)

/-- The first pass updates no aggregate. -/
theorem updates_prelimStmt : generator.prelimStmt.updates = [] := by
  have entries (k : Nat) : (generator.groupEntryStmt k).updates = [] := by
    simp [groupEntryStmt, Stmt.updates_block, Stmt.updates]
  simp [prelimStmt, prelimBody, Stmt.updates_block, Stmt.updates, entries]

/-- A scan updates the aggregates of its bucket whose function is known. -/
theorem updates_modeScanStmt
    (i : Nat)
    (bucket : List Aggregate)
    (cond : Text) :
    (generator.modeScanStmt i bucket cond).updates =
      bucket.filter fun aggregate => aggregate.update ≠ .none := by
  have updates (source : Iter) :
      (Stmt.block (bucket.map fun aggregate => Stmt.update aggregate source)).updates =
        bucket.filter fun aggregate => aggregate.update ≠ .none := by
    rw [Stmt.updates_block, List.flatMap_map]
    induction bucket with
    | nil => rfl
    | cons aggregate bucket inductionHypothesis =>
        rw [List.flatMap_cons, inductionHypothesis, Stmt.updates]
        by_cases unknown : aggregate.update = .none
        · simp [unknown]
        · simp [unknown]
  unfold modeScanStmt
  cases generator.emf with
  | true => simp [emfScanStmt, Stmt.updates, updates]
  | false => simp [scanStmt, Stmt.updates, updates]

/-- Only one of the scans contributes. -/
theorem flatMap_replicate_single
    {count : Nat → Nat}
    {scan total : Nat}
    (inside : scan < total)
    (others : ∀ i, i ≠ scan → count i = 0) :
    ((List.range total).flatMap fun i => List.replicate (count i) i) =
      List.replicate (count scan) scan := by
  have before : ∀ bound ≤ scan,
      ((List.range bound).flatMap fun i => List.replicate (count i) i) = [] := by
    intro bound below
    rw [List.flatMap_eq_nil_iff]
    intro i member
    rw [others i (by have := List.mem_range.mp member; omega), List.replicate_zero]
  induction total with
  | zero => omega
  | succ total inductionHypothesis =>
      rw [List.range_succ, List.flatMap_append, List.flatMap_singleton]
      by_cases last : scan = total
      · subst scan
        rw [before total le_rfl, List.nil_append]
      · rw [inductionHypothesis (by omega), others total (Ne.symm last), List.replicate_zero,
          List.append_nil]

variable {generator} {program : Program}

/-- A compiled program updates an aggregate in the scan of its group, as often
as the F-vector has an aggregate with its field. -/
theorem Compiled.updatingScans_eq
    (compiled : generator.Compiled program)
    {aggregate : Aggregate}
    {i : Nat}
    (isGroup : aggregate.group = (i : Int))
    (inRange : i ≤ generator.noGroupingVars) :
    program.updatingScans aggregate =
      List.replicate ((generator.bucket i).countP fun other =>
        decide (other.update ≠ .none) && aggregate.sameField other) i := by
  have updates (k : Nat) :
      (((program.scans[k]?).elim [] Stmt.updates).countP aggregate.sameField) =
        if k ≤ generator.noGroupingVars then
          (generator.bucket k).countP fun other =>
            decide (other.update ≠ .none) && aggregate.sameField other
        else 0 := by
    have scans := compiled.length_scans
    by_cases below : k ≤ generator.noGroupingVars
    · have exists_ : k < program.scans.length := by omega
      obtain ⟨-, cond, -, shape⟩ := compiled.scan (List.getElem?_eq_getElem exists_)
      rw [List.getElem?_eq_getElem exists_, shape, Option.elim_some, updates_modeScanStmt,
        List.countP_filter, if_pos below]
      simp only [Bool.and_comm]
    · rw [List.getElem?_eq_none (by omega), if_neg below]
      rfl
  have others (k : Nat) (different : k ≠ i) :
      (((program.scans[k]?).elim [] Stmt.updates).countP aggregate.sameField) = 0 := by
    rw [updates k]
    split_ifs
    · rw [List.countP_eq_zero]
      intro other member
      have group : other.group = (k : Int) := of_decide_eq_true (List.mem_filter.mp member).2
      simp only [Aggregate.sameField, group, isGroup, Bool.and_eq_true, decide_eq_true_eq]
      omega
    · rfl
  have inside : i < program.scans.length := by
    rw [compiled.length_scans]
    omega
  rw [Program.updatingScans, flatMap_replicate_single inside others, updates i, if_pos inRange]

end ScanGenerator

/-! ## Supported functions -/

/-- The function names the scans know. -/
def functionNames : List Text :=
  ["avg", "AVG", "sum", "SUM", "count", "COUNT", "min", "MIN", "max", "MAX"]

/-- A function in one of five lower-case and five upper-case spellings. -/
theorem Aggregate.mem_spellings_iff
    (aggregate : Aggregate)
    (a b c d e f g h i j : Text) :
    aggregate.func ∈ [a, b, c, d, e, f, g, h, i, j] ↔
      (aggregate.isFunc a b || aggregate.isFunc c d || aggregate.isFunc e f ||
        aggregate.isFunc g h || aggregate.isFunc i j) = true := by
  simp only [Aggregate.isFunc, List.mem_cons, List.not_mem_nil, or_false, Bool.or_eq_true,
    decide_eq_true_eq, or_assoc]

theorem Aggregate.update_ne_none_iff (aggregate : Aggregate) :
    aggregate.update ≠ .none ↔ aggregate.func ∈ functionNames := by
  rw [functionNames, Aggregate.mem_spellings_iff, Aggregate.update]
  generalize aggregate.isFunc "avg" "AVG" = avg
  generalize aggregate.isFunc "sum" "SUM" = sum
  generalize aggregate.isFunc "count" "COUNT" = count
  generalize aggregate.isFunc "min" "MIN" = min
  generalize aggregate.isFunc "max" "MAX" = max
  revert avg sum count min max
  decide

/-- No function name is a numeral. -/
theorem itoa_notMem_functionNames (i : Int) : itoa i ∉ functionNames := by
  intro member
  have letters : functionNames.all (fun name => name.any fun character =>
      !character.isDigit && character ≠ '-') = true := by decide
  have letter := List.all_eq_true.mp letters _ member
  simp only [List.any_eq_true, Bool.and_eq_true, Bool.not_eq_true', decide_eq_true_eq] at letter
  obtain ⟨character, inside, noDigit, noSign⟩ := letter
  exact notMem_itoa noDigit noSign i inside

/-! ## Emitted programs -/

/-- The parts of a compiled query: the group structures end its header, the
printed passes its program. -/
structure Query.Emits
    (query : Query)
    (out : Text × Text)
    (generator : ScanGenerator)
    (program : Program) : Prop where
  built : query.scanGenerator = some generator
  isProgram : generator.program = some program
  header : ∃ front, out.1 = front ++ createGroupingVarStructs query.noGroupingVars query.columns
    generator.selectColumns generator.allAggregates
  body : ∃ front, out.2 = front ++ program.render

theorem Query.exists_emits
    {query : Query}
    {out : Text × Text}
    (emitted : query.compile = some out) :
    ∃ generator program, query.Emits out generator program := by
  simp only [Query.compile, Option.bind_eq_bind, Option.pure_def, Option.bind_eq_some_iff,
    Option.some.injEq] at emitted
  obtain ⟨generator, built, structures, -, helpers, -, printer, -, body, generated, rfl⟩ := emitted
  rw [ScanGenerator.generate_eq_render] at generated
  obtain ⟨program, isProgram, rfl⟩ := Option.map_eq_some_iff.mp generated
  exact ⟨generator, program, built, isProgram, ⟨structures, rfl⟩, ⟨helpers ++ printer, rfl⟩⟩

/-- The aggregate is declared in the structure of its group, and updated once,
in the scan of its group. -/
structure Computes
    (query : Query)
    (generator : ScanGenerator)
    (program : Program)
    (aggregate : Aggregate) : Prop where
  group_nonneg : 0 ≤ aggregate.group
  group_le : aggregate.group ≤ query.noGroupingVars
  supported : aggregate.func ∈ functionNames
  declared : ∃ field ∈ groupFields aggregate.group.toNat query.columns generator.selectColumns
    generator.allAggregates, field.name = aggregate.toVar
  prelim : program.prelim.updates = []
  updated : program.updatingScans aggregate = [aggregate.group.toNat]

section Emitted

variable {query : Query} {entries : List FEntry} {out : Text × Text} {generator : ScanGenerator}
  {program : Program}

/-- The aggregates of the generator are read from the entries. -/
theorem Query.Emits.mapM_entries
    (emits : query.Emits out generator program)
    (written : query.fVect = entries.map FEntry.text) :
    entries.mapM (fun entry => Aggregate.ofText entry.text) = some generator.allAggregates := by
  have read := (Query.builtFrom emits.built).allAggregates_eq
  rw [getAllAggregates, written, List.mapM_map] at read
  exact read

/-- The field of a supported entry with a blank column is declared nowhere. -/
theorem FEntry.visible_of_declared
    (emits : query.Emits out generator program)
    (written : query.fVect = entries.map FEntry.text)
    {entry : FEntry}
    (computed : Computes query generator program entry.aggregate) :
    entry.Visible := by
  have read := emits.mapM_entries written
  by_contra blank
  obtain ⟨field, inStruct, name⟩ := computed.declared
  rcases List.mem_append.mp inStruct with inColumns | inAggregates
  · obtain ⟨column, selected, rfl⟩ := List.mem_map.mp inColumns
    have plain := (Query.parsed_scanGenerator emits.built).plain_column column selected
    have isName : column = entry.aggregate.toVar := name
    exact plain (isName ▸ entry.aggregate.underscore_mem_toVar)
  · obtain ⟨other, inBucket, rfl⟩ := List.mem_map.mp inAggregates
    obtain ⟨source, -, isOther⟩ := exists_entry_of_mem read (List.mem_of_mem_filter inBucket)
    have sameName : other.toVar = entry.aggregate.toVar := name
    have sameVar : other.func ++ '_' :: other.column = entry.func ++ '_' :: entry.column := by
      simpa [Aggregate.toVar, FEntry.aggregate] using sameName
    by_cases visible : source.Visible
    · rw [FEntry.ofText_text visible, Option.some.injEq] at isOther
      subst isOther
      obtain ⟨-, columns⟩ :=
        Aggregate.func_eq_of_append_eq source.func_plain entry.func_plain sameVar
      have isColumn : source.column = entry.column := columns
      exact blank (by rwa [FEntry.Visible, isColumn] at visible)
    · rw [FEntry.ofText_blank visible] at isOther
      obtain ⟨group, -, rfl⟩ := Option.map_eq_some_iff.mp isOther
      have plain : '_' ∉ itoa group := notMem_itoa (by decide) (by decide) group
      obtain ⟨funcs, -⟩ := Aggregate.func_eq_of_append_eq plain entry.func_plain sameVar
      have supported : entry.func ∈ functionNames := computed.supported
      exact itoa_notMem_functionNames group (funcs ▸ supported)

/-- Among visible entries the field of an aggregate is updated as often as the
aggregate occurs. -/
theorem Query.Emits.updatingScans_eq
    (emits : query.Emits out generator program)
    (all : generator.allAggregates = entries.map FEntry.aggregate)
    {aggregate : Aggregate}
    (member : aggregate ∈ generator.allAggregates)
    (supported : aggregate.func ∈ functionNames) :
    program.updatingScans aggregate =
      List.replicate (generator.allAggregates.count aggregate) aggregate.group.toNat := by
  have compiled := ScanGenerator.compiled_of_program emits.isProgram
  have ⟨nonneg, below⟩ := compiled.inRange aggregate member
  have plain : ∀ other ∈ generator.allAggregates, other.func ≠ [] ∧ '_' ∉ other.func := by
    rw [all]
    intro other inAll
    obtain ⟨entry, -, rfl⟩ := List.mem_map.mp inAll
    exact ⟨entry.func_ne_nil, entry.func_plain⟩
  have ⟨present, free⟩ := plain aggregate member
  have isGroup : aggregate.group = (aggregate.group.toNat : Int) := by omega
  rw [compiled.updatingScans_eq isGroup (by omega), ScanGenerator.bucket, List.countP_filter,
    List.count]
  congr 1
  apply List.countP_congr
  intro other inAll
  simp only [Aggregate.sameField, ← isGroup, Bool.and_eq_true, decide_eq_true_eq, beq_iff_eq]
  constructor
  · rintro ⟨⟨-, sameGroup, sameVar⟩, -⟩
    exact (Aggregate.eq_of_toVar_eq free present
      (fun inTail => (plain other inAll).2 (List.mem_of_mem_tail inTail)) sameGroup.symm
      sameVar.symm).symm
  · rintro rfl
    exact ⟨⟨(other.update_ne_none_iff).mpr supported, rfl, rfl⟩, rfl⟩

end Emitted

/-- Where compilation succeeds, every aggregate of the F-vector is declared in
its group and updated once in the scan of its group exactly when all functions
are known, no column is blank and no aggregate is written twice. -/
theorem no_aggregate_dropped_iff
    (query : Query)
    (entries : List FEntry)
    (out : Text × Text)
    (written : query.fVect = entries.map FEntry.text)
    (emitted : query.compile = some out) :
    (∃ generator program, query.Emits out generator program ∧
      ∀ entry ∈ entries, Computes query generator program entry.aggregate) ↔
      (∀ entry ∈ entries, entry.func ∈ functionNames ∧ entry.Visible) ∧
        (entries.map FEntry.aggregate).Nodup := by
  have readAll {generator : ScanGenerator} {program : Program}
      (emits : query.Emits out generator program) (visible : ∀ entry ∈ entries, entry.Visible) :
      generator.allAggregates = entries.map FEntry.aggregate := by
    have read := emits.mapM_entries written
    rw [mapM_eq_some_map fun entry member => FEntry.ofText_text (visible entry member),
      Option.some.injEq] at read
    exact read.symm
  constructor
  · rintro ⟨generator, program, emits, computes⟩
    have visible : ∀ entry ∈ entries, entry.Visible :=
      fun entry member => entry.visible_of_declared emits written (computes entry member)
    have all := readAll emits visible
    refine ⟨fun entry member => ⟨(computes entry member).supported, visible entry member⟩, ?_⟩
    rw [List.nodup_iff_count_eq_one]
    intro aggregate member
    obtain ⟨entry, inEntries, rfl⟩ := List.mem_map.mp member
    have computed := computes entry inEntries
    have updated := emits.updatingScans_eq all (all ▸ member) computed.supported
    rw [computed.updated, all] at updated
    have length := congrArg List.length updated
    rw [List.length_replicate] at length
    exact length.symm
  · rintro ⟨known, distinct⟩
    obtain ⟨generator, program, emits⟩ := Query.exists_emits emitted
    have all := readAll emits fun entry member => (known entry member).2
    have compiled := ScanGenerator.compiled_of_program emits.isProgram
    refine ⟨generator, program, emits, ?_⟩
    intro entry member
    have inAll : entry.aggregate ∈ generator.allAggregates := by
      rw [all]
      exact List.mem_map_of_mem member
    have ⟨nonneg, below⟩ := compiled.inRange entry.aggregate inAll
    have n := (Query.builtFrom emits.built).noGroupingVars_eq
    have supported : entry.aggregate.func ∈ functionNames := (known entry member).1
    refine ⟨nonneg, by rwa [n] at below, supported, ?_, ?_, ?_⟩
    · refine ⟨aggregateField query.columns entry.aggregate, List.mem_append_right _ ?_, rfl⟩
      refine List.mem_map_of_mem (List.mem_filter.mpr ⟨inAll, decide_eq_true ?_⟩)
      omega
    · rw [compiled.prelim_eq]
      exact generator.updates_prelimStmt
    · rw [emits.updatingScans_eq all inAll supported, all,
        List.nodup_iff_count_eq_one.mp distinct _ (List.mem_map_of_mem member)]
      rfl

/-- The number of sales. -/
def saleCountEntry : FEntry where
  label := none
  func := "count"
  column := "quant"
  label_int := by simp
  func_ne_nil := by decide
  func_plain := by decide
  column_ne_nil := by decide
  column_plain := by decide

/-- An aggregate of group one over the quantities. -/
def quantEntry (func : Text) (present : func ≠ []) (plain : '_' ∉ func) : FEntry where
  label := some 1
  func := func
  column := "quant"
  label_int := by
    rintro group ⟨⟩
    decide
  func_ne_nil := present
  func_plain := plain
  column_ne_nil := by decide
  column_plain := by decide

/-- Both aggregates of the sales query are computed. -/
theorem no_aggregate_dropped_sale :
    ∃ out generator program, (saleQuery false).compile = some out ∧
      (saleQuery false).Emits out generator program ∧
      ∀ entry ∈ [saleCountEntry, quantEntry "sum" (by decide) (by decide)],
        Computes (saleQuery false) generator program entry.aggregate := by
  obtain ⟨out, emitted⟩ := Option.isSome_iff_exists.mp
    (by rfl : (saleQuery false).compile.isSome = true)
  obtain ⟨generator, program, emits, computes⟩ := (no_aggregate_dropped_iff (saleQuery false)
    [saleCountEntry, quantEntry "sum" (by decide) (by decide)] out (by decide) emitted).mpr (by
      refine ⟨?_, by decide⟩
      simp only [List.forall_mem_cons, List.not_mem_nil, IsEmpty.forall_iff, implies_true, and_true]
      exact ⟨⟨by decide, 'q', by decide, by decide⟩, by decide, 'q', by decide, by decide⟩)
  exact ⟨out, generator, program, emitted, emits, computes⟩

/-- The sales query with an unknown function. -/
def medianQuery : Query := { saleQuery false with fVect := ["count_quant", "1_median_quant"] }

/-- The median is declared, but no scan computes it. -/
theorem unknown_function_dropped :
    ∃ out generator program, medianQuery.compile = some out ∧
      medianQuery.Emits out generator program ∧
      (∃ field ∈ groupFields 1 medianQuery.columns generator.selectColumns
        generator.allAggregates, field.name = Aggregate.toVar ⟨1, "median", "quant"⟩) ∧
      program.updatingScans ⟨1, "median", "quant"⟩ = [] := by
  obtain ⟨out, emitted⟩ := Option.isSome_iff_exists.mp
    (by rfl : medianQuery.compile.isSome = true)
  obtain ⟨generator, program, emits⟩ := Query.exists_emits emitted
  have compiled := ScanGenerator.compiled_of_program emits.isProgram
  have isGenerator : medianQuery.scanGenerator =
      some { saleGenerator false with
        allAggregates := [⟨0, "count", "quant"⟩, ⟨1, "median", "quant"⟩] } := rfl
  obtain rfl := Option.some.inj (emits.built.symm.trans isGenerator)
  refine ⟨out, _, program, emitted, emits,
    ⟨aggregateField medianQuery.columns ⟨1, "median", "quant"⟩, by decide, rfl⟩, ?_⟩
  rw [compiled.updatingScans_eq (i := 1) rfl (by decide)]
  decide

end MfQuery
