import MfQuery.ScanGenerator

/-!
# Syntax of the emitted program

The body of the emitted `main` is a small program: loops over the vectors
`data`, `uniques` and `mf_struct`, guarded updates of the group vectors, and
the filtering pass over the results. This module gives that program a syntax
tree with a printer, and shows that the text the scan generator concatenates
is the printed tree. The semantics of the emitted program is then the
semantics of the tree.
-/

namespace MfQuery

open Text

/-- Iterators of the emitted loops. -/
inductive Iter
  | it
  | xt
  deriving DecidableEq, Repr

/-- The row an iterator points at. -/
def Iter.text : Iter → Text
  | it => "(*it)"
  | xt => "(*xt)"

/-- Loops whose body leaves the vector they walk unchanged. -/
inductive Loop
  | prelim
  | scan
  | emfOuter
  | emfInner
  deriving DecidableEq, Repr

namespace Loop

/-- Loop variable. -/
def iter : Loop → Iter
  | prelim | scan | emfOuter => .it
  | emfInner => .xt

/-- Loop header, with its opening brace where there is one. -/
def header : Loop → Text
  | prelim =>
      "\tfor(vector<struct sales*>::iterator it = uniques->begin();it != uniques->end();it++)\x7b\n"
  | scan => "\tfor(auto it = data->begin(); it != data->end();it++)\x7b\n"
  | emfOuter => "\tfor(auto it = uniques->begin();it != uniques->end();it++)\n"
  | emfInner => "\t\tfor(auto xt = data->begin(); xt != data->end();xt++)\x7b\n"

/-- Closing brace. -/
def footer : Loop → Text
  | prelim | scan | emfInner => "\t\x7d\n"
  | emfOuter => []

end Loop

/-- Statements of the first pass and of the scans. -/
inductive Stmt
  | skip
  | seq (first second : Stmt)
  | declareUniques
  | declareGroup (k : Nat)
  | callocEntry
  | copyEntry (column : Text)
  | pushEntry
  | callocGroupEntry (k : Nat)
  | copyGroupEntry (k : Nat) (column : Text)
  | pushGroupEntry (k : Nat)
  | declarePos
  | findPos (k : Nat) (attributes : List Text)
  | offsetPos
  | update (aggregate : Aggregate) (source : Iter)
  | guarded (scan : Nat) (cond : Text) (body : Stmt)
  | loop (kind : Loop) (body : Stmt)
  deriving DecidableEq, Repr

/-- Statements one after the other. -/
def Stmt.block : List Stmt → Stmt
  | [] => .skip
  | statement :: rest => .seq statement (block rest)

/-- Key arguments of a lookup call, read from the row of `it`. -/
def keyArguments (attributes : List Text) : Text :=
  attributes.flatMap fun attr => (",(*it)->" ++ attr : Text)

/-- Printed statement. -/
def Stmt.render : Stmt → Text
  | skip => []
  | seq first second => first.render ++ second.render
  | declareUniques => "\tvector<struct sales*>* uniques = get_uniques(data);\n"
  | declareGroup k =>
      "\tvector<struct group" ++ itoa k ++ "*>* data" ++ itoa k ++
        " = new vector<struct group" ++ itoa k ++ "*>();\n"
  | callocEntry =>
      "\t\tstruct mf_structure* entry = (struct mf_structure*)calloc(1,sizeof(struct mf_structure));\n"
  | copyEntry column => ScanGenerator.copyText "entry" column
  | pushEntry => "\t\tmf_struct->push_back(entry);\n"
  | callocGroupEntry k =>
      "\t\tstruct group" ++ itoa k ++ "* entry" ++ itoa k ++ " = (struct group" ++ itoa k ++
        "*)calloc(1,sizeof(struct group" ++ itoa k ++ "));\n"
  | copyGroupEntry k column => ScanGenerator.copyText ("entry" ++ itoa k) column
  | pushGroupEntry k => "\t\tdata" ++ itoa k ++ "->push_back(entry" ++ itoa k ++ ");\n"
  | declarePos => "\t\tsize_t pos;\n"
  | findPos k attributes =>
      "\t\t\tpos = vfind" ++ itoa k ++ "(data" ++ itoa k ++ keyArguments attributes ++ ");\n"
  | offsetPos => "\t\t\tsize_t pos = it - uniques->begin();\n"
  | update aggregate source => aggregate.updateText source.text
  | guarded _ cond body => "\t\tif(" ++ cond ++ ")\x7b\n" ++ body.render ++ "\t\t\x7d\n"
  | loop kind body => kind.header ++ body.render ++ kind.footer

theorem Stmt.render_seq (first second : Stmt) :
    (Stmt.seq first second).render = first.render ++ second.render := rfl

theorem Stmt.render_guarded (scan : Nat) (cond : Text) (body : Stmt) :
    (Stmt.guarded scan cond body).render =
      "\t\tif(" ++ cond ++ ")\x7b\n" ++ body.render ++ "\t\t\x7d\n" := rfl

theorem Stmt.render_loop (kind : Loop) (body : Stmt) :
    (Stmt.loop kind body).render = kind.header ++ body.render ++ kind.footer := rfl

theorem Stmt.render_declareGroup (k : Nat) :
    (Stmt.declareGroup k).render =
      "\tvector<struct group" ++ itoa k ++ "*>* data" ++ itoa k ++
        " = new vector<struct group" ++ itoa k ++ "*>();\n" := rfl

theorem Stmt.render_callocGroupEntry (k : Nat) :
    (Stmt.callocGroupEntry k).render =
      "\t\tstruct group" ++ itoa k ++ "* entry" ++ itoa k ++ " = (struct group" ++ itoa k ++
        "*)calloc(1,sizeof(struct group" ++ itoa k ++ "));\n" := rfl

theorem Stmt.render_pushGroupEntry (k : Nat) :
    (Stmt.pushGroupEntry k).render =
      "\t\tdata" ++ itoa k ++ "->push_back(entry" ++ itoa k ++ ");\n" := rfl

theorem Stmt.render_findPos (k : Nat) (attributes : List Text) :
    (Stmt.findPos k attributes).render =
      "\t\t\tpos = vfind" ++ itoa k ++ "(data" ++ itoa k ++ keyArguments attributes ++ ");\n" :=
  rfl

theorem Stmt.render_update (aggregate : Aggregate) (source : Iter) :
    (Stmt.update aggregate source).render = aggregate.updateText source.text := rfl

theorem Stmt.render_declarePos : Stmt.declarePos.render = "\t\tsize_t pos;\n" := rfl

theorem Stmt.render_offsetPos :
    Stmt.offsetPos.render = "\t\t\tsize_t pos = it - uniques->begin();\n" := rfl

theorem Stmt.render_block (statements : List Stmt) :
    (Stmt.block statements).render = statements.flatMap Stmt.render := by
  induction statements with
  | nil => rfl
  | cons statement rest inductionHypothesis =>
      rw [Stmt.block, Stmt.render_seq, inductionHypothesis, List.flatMap_cons]

/-- The last pass: reject entries, then copy the selected aggregates. -/
structure FillPass where
  groupingAttr : List Text
  having : Text
  selectAggregates : List Aggregate
  deriving DecidableEq, Repr

/-- Printed last pass. -/
def FillPass.render (fill : FillPass) : Text :=
  "\tfor(auto it = mf_struct->begin();it != mf_struct->end(); it++)\x7b\n" ++
    "\t\tint pos = vfind0(data0" ++ keyArguments fill.groupingAttr ++ ");\n" ++
    "\t\tif(!(" ++ fill.having ++ ")" ++
    ")\x7b\n" ++ "\t\t\tmf_struct->erase(it);\n" ++ "\t\t\tit--;\n" ++ "\t\t\tcontinue;\n" ++
    "\t\t\x7d\n" ++ "\t\tif(pos == -1)\x7b\n" ++ "\t\t\tmf_struct->erase(it);\n" ++
    "\t\t\tit--;\n" ++ "\t\t\tcontinue;\n" ++ "\t\t\x7d\n" ++
    fill.selectAggregates.flatMap (fun aggregate =>
      ("\t\t(*it)->" ++ aggregate.toABSVar ++ " = " ++ aggregate.readText ++ ";\n" : Text)) ++
    "\t\x7d\n"

/-- The emitted passes in order; the scan of group `i` stands at index `i`. -/
structure Program where
  prelim : Stmt
  scans : List Stmt
  fill : FillPass
  deriving DecidableEq, Repr

/-- Printed program. -/
def Program.render (program : Program) : Text :=
  program.prelim.render ++ program.scans.flatMap Stmt.render ++ program.fill.render

namespace ScanGenerator

/-- Filling the records of one group from the current row. -/
def groupEntryStmt (generator : ScanGenerator) (k : Nat) : Stmt :=
  .block ([.callocGroupEntry k] ++ generator.selectColumns.map (.copyGroupEntry k) ++
    [.pushGroupEntry k])

/-- Body of the first pass. -/
def prelimBody (generator : ScanGenerator) : Stmt :=
  .block ([.callocEntry] ++ generator.selectColumns.map .copyEntry ++ [.pushEntry] ++
    (List.range (generator.noGroupingVars + 1)).map generator.groupEntryStmt)

/-- The first pass. -/
def prelimStmt (generator : ScanGenerator) : Stmt :=
  .block ([.declareUniques] ++
    (List.range (generator.noGroupingVars + 1)).map .declareGroup ++
    [.loop .prelim generator.prelimBody])

/-- Scan `i` of an MF program, guarded by `cond`. -/
def scanStmt
    (generator : ScanGenerator)
    (i : Nat)
    (bucket : List Aggregate)
    (cond : Text) : Stmt :=
  .loop .scan (.seq .declarePos (.guarded i cond (.seq (.findPos i generator.groupingAttr)
    (.block (bucket.map fun aggregate => .update aggregate .it)))))

/-- Scan `i` of an EMF program, guarded by `cond`. -/
def emfScanStmt
    (i : Nat)
    (bucket : List Aggregate)
    (cond : Text) : Stmt :=
  .loop .emfOuter (.loop .emfInner (.guarded i cond (.seq .offsetPos
    (.block (bucket.map fun aggregate => .update aggregate .xt)))))

/-- Scan `i` in the mode of the query. -/
def modeScanStmt
    (generator : ScanGenerator)
    (i : Nat)
    (bucket : List Aggregate)
    (cond : Text) : Stmt :=
  if generator.emf then emfScanStmt i bucket cond else generator.scanStmt i bucket cond

/-- The scans of consecutive groups. -/
def scanStmts (generator : ScanGenerator) : Nat → List (List Aggregate) → Option (List Stmt)
  | _, [] => some []
  | i, bucket :: buckets => do
      let cond ← generator.getSelectionCond i
      let rest ← generator.scanStmts (i + 1) buckets
      return generator.modeScanStmt i bucket cond :: rest

/-- The syntax tree of the emitted passes. -/
def program (generator : ScanGenerator) : Option Program := do
  let groups ← generator.groupAggregates
  let scans ← generator.scanStmts 0 groups
  let having ← generator.parseHaving
  return ⟨generator.prelimStmt, scans,
    ⟨generator.groupingAttr, having, generator.selectAggregates⟩⟩

theorem render_groupEntryStmt
    (generator : ScanGenerator)
    (k : Nat) :
    (generator.groupEntryStmt k).render =
      Stmt.render (.callocGroupEntry k) ++
        generator.selectColumns.flatMap (copyText ("entry" ++ itoa k)) ++
        Stmt.render (.pushGroupEntry k) := by
  rw [groupEntryStmt, Stmt.render_block]
  simp only [List.flatMap_append, List.flatMap_cons, List.flatMap_nil, List.append_nil,
    List.flatMap_map]
  rfl

theorem render_prelimBody (generator : ScanGenerator) :
    generator.prelimBody.render =
      Stmt.render .callocEntry ++ generator.selectColumns.flatMap (copyText "entry") ++
        Stmt.render .pushEntry ++
        (List.range (generator.noGroupingVars + 1)).flatMap
          (fun k => (generator.groupEntryStmt k).render) := by
  rw [prelimBody, Stmt.render_block]
  simp only [List.flatMap_append, List.flatMap_cons, List.flatMap_nil, List.append_nil,
    List.flatMap_map]
  rfl

theorem render_prelimStmt (generator : ScanGenerator) :
    generator.prelimStmt.render = generator.prelimScan := by
  rw [prelimStmt, Stmt.render_block]
  simp only [List.flatMap_append, List.flatMap_cons, List.flatMap_nil, List.append_nil,
    List.flatMap_map, Stmt.render_loop, render_prelimBody, render_groupEntryStmt]
  unfold prelimScan
  simp only [List.append_assoc, Stmt.render_declareGroup, Stmt.render_callocGroupEntry,
    Stmt.render_pushGroupEntry]
  rfl

theorem render_scanStmt
    (generator : ScanGenerator)
    (i : Nat)
    (bucket : List Aggregate) :
    (generator.getSelectionCond i).map (fun cond => (generator.scanStmt i bucket cond).render) =
      generator.scanText i bucket := by
  unfold scanText
  refine congrArg (Option.map · _) (funext fun cond => ?_)
  rw [scanStmt, Stmt.render_loop, Stmt.render_seq, Stmt.render_guarded, Stmt.render_seq,
    Stmt.render_block]
  simp only [List.flatMap_map, List.append_assoc, Stmt.render_findPos, Stmt.render_update,
    Stmt.render_declarePos]
  rfl

theorem render_emfScanStmt
    (generator : ScanGenerator)
    (i : Nat)
    (bucket : List Aggregate) :
    (generator.getSelectionCond i).map (fun cond => (emfScanStmt i bucket cond).render) =
      generator.emfScanText i bucket := by
  unfold emfScanText
  refine congrArg (Option.map · _) (funext fun cond => ?_)
  rw [emfScanStmt, Stmt.render_loop, Stmt.render_loop, Stmt.render_guarded, Stmt.render_seq,
    Stmt.render_block]
  simp only [List.flatMap_map, List.append_assoc, Stmt.render_update, Stmt.render_offsetPos]
  rfl

/-- The scan texts of either mode are the printed scans. -/
theorem render_scanStmts
    (generator : ScanGenerator)
    (i : Nat)
    (buckets : List (List Aggregate)) :
    (generator.scanStmts i buckets).map (List.flatMap Stmt.render) =
      scanTexts (if generator.emf then generator.emfScanText else generator.scanText)
        i buckets := by
  induction buckets generalizing i with
  | nil => rfl
  | cons bucket buckets inductionHypothesis =>
      have later := inductionHypothesis (i + 1)
      have here : (generator.getSelectionCond i).map
          (fun cond => (generator.modeScanStmt i bucket cond).render) =
            (if generator.emf then generator.emfScanText else generator.scanText) i bucket := by
        unfold modeScanStmt
        cases generator.emf with
        | true => exact render_emfScanStmt generator i bucket
        | false => exact render_scanStmt generator i bucket
      rw [scanTexts, ← here, ← later, scanStmts]
      cases generator.getSelectionCond i with
      | none => rfl
      | some cond =>
          cases generator.scanStmts (i + 1) buckets with
          | none => rfl
          | some rest => rfl

/-- The emitted text is the printed program. -/
theorem generate_eq_render (generator : ScanGenerator) :
    generator.generate = generator.program.map Program.render := by
  have fill : generator.fillMfstruct = generator.parseHaving.map fun having =>
      FillPass.render ⟨generator.groupingAttr, having, generator.selectAggregates⟩ := by
    unfold fillMfstruct FillPass.render keyArguments
    rfl
  have scans : (if generator.emf then generator.emfAggregateScan else generator.aggregateScan) =
      generator.groupAggregates.bind fun groups =>
        (generator.scanStmts 0 groups).map (List.flatMap Stmt.render) := by
    simp only [render_scanStmts, emfAggregateScan, aggregateScan]
    cases generator.emf with
    | true => rfl
    | false => rfl
  have shape : generator.generate =
      (if generator.emf then generator.emfAggregateScan else generator.aggregateScan).bind
        fun text => generator.fillMfstruct.map fun last =>
          generator.prelimScan ++ text ++ last := by
    unfold generate
    cases generator.emf with
    | true => cases generator.emfAggregateScan <;> cases generator.fillMfstruct <;> rfl
    | false => cases generator.aggregateScan <;> cases generator.fillMfstruct <;> rfl
  unfold program
  rw [shape, scans, fill]
  cases generator.groupAggregates with
  | none => rfl
  | some groups =>
      simp only [Option.bind_eq_bind, Option.bind_some]
      cases generator.scanStmts 0 groups with
      | none => rfl
      | some statements =>
          cases generator.parseHaving with
          | none => rfl
          | some having => simp [Program.render, render_prelimStmt]

/-- What a compiled program consists of. -/
structure Compiled (generator : ScanGenerator) (program : Program) : Prop where
  inRange : generator.GroupsInRange
  prelim_eq : program.prelim = generator.prelimStmt
  scans_eq : generator.scanStmts 0
    ((List.range (generator.noGroupingVars + 1)).map generator.bucket) = some program.scans
  having_eq : generator.parseHaving = some program.fill.having
  attributes_eq : program.fill.groupingAttr = generator.groupingAttr
  aggregates_eq : program.fill.selectAggregates = generator.selectAggregates

theorem compiled_of_program
    {generator : ScanGenerator}
    {program : Program}
    (result : generator.program = some program) :
    generator.Compiled program := by
  simp only [ScanGenerator.program, Option.bind_eq_bind, Option.bind_eq_some_iff] at result
  obtain ⟨groups, grouped, scans, statements, having, parsed, shape⟩ := result
  cases shape
  have inRange := groupsInRange_of_groupAggregates grouped
  rw [groupAggregates_eq inRange] at grouped
  cases grouped
  exact ⟨inRange, rfl, statements, parsed, rfl, rfl⟩

theorem length_scanStmts
    {generator : ScanGenerator}
    {i : Nat}
    {buckets : List (List Aggregate)}
    {scans : List Stmt}
    (statements : generator.scanStmts i buckets = some scans) :
    scans.length = buckets.length := by
  induction buckets generalizing i scans with
  | nil =>
      cases statements
      rfl
  | cons bucket buckets inductionHypothesis =>
      simp only [scanStmts, Option.bind_eq_bind, Option.bind_eq_some_iff] at statements
      obtain ⟨cond, -, rest, later, result⟩ := statements
      cases result
      rw [List.length_cons, List.length_cons, inductionHypothesis later]

/-- The scan at each index, with its own guard. -/
theorem getElem?_scanStmts
    {generator : ScanGenerator}
    {i : Nat}
    {buckets : List (List Aggregate)}
    {scans : List Stmt}
    (statements : generator.scanStmts i buckets = some scans)
    {k : Nat}
    {scan : Stmt}
    (found : scans[k]? = some scan) :
    ∃ bucket cond, buckets[k]? = some bucket ∧
      generator.getSelectionCond (i + k) = some cond ∧
      scan = generator.modeScanStmt (i + k) bucket cond := by
  induction buckets generalizing i k scans with
  | nil =>
      cases statements
      simp at found
  | cons bucket buckets inductionHypothesis =>
      simp only [scanStmts, Option.bind_eq_bind, Option.bind_eq_some_iff] at statements
      obtain ⟨cond, condition, rest, later, result⟩ := statements
      cases result
      cases k with
      | zero =>
          simp only [List.getElem?_cons_zero, Option.some.injEq] at found
          exact ⟨bucket, cond, rfl, condition, found.symm⟩
      | succ k =>
          simp only [List.getElem?_cons_succ] at found
          obtain ⟨other, otherCond, inside, guard, shape⟩ := inductionHypothesis later found
          rw [show i + (k + 1) = i + 1 + k by omega]
          exact ⟨other, otherCond, by simpa using inside, guard, shape⟩

theorem Compiled.length_scans
    {generator : ScanGenerator}
    {program : Program}
    (compiled : generator.Compiled program) :
    program.scans.length = generator.noGroupingVars + 1 := by
  rw [length_scanStmts compiled.scans_eq, List.length_map, List.length_range]

/-- The scan of group `i` of a compiled program. -/
theorem Compiled.scan
    {generator : ScanGenerator}
    {program : Program}
    (compiled : generator.Compiled program)
    {i : Nat}
    {scan : Stmt}
    (found : program.scans[i]? = some scan) :
    i ≤ generator.noGroupingVars ∧ ∃ cond, generator.getSelectionCond i = some cond ∧
      scan = generator.modeScanStmt i (generator.bucket i) cond := by
  obtain ⟨bucket, cond, inside, guard, shape⟩ := getElem?_scanStmts compiled.scans_eq found
  rw [Nat.zero_add] at guard shape
  rw [List.getElem?_map, Option.map_eq_some_iff] at inside
  obtain ⟨index, atIndex, rfl⟩ := inside
  obtain ⟨below, rfl⟩ := List.getElem?_eq_some_iff.mp atIndex
  rw [List.length_range] at below
  rw [List.getElem_range] at shape
  exact ⟨Nat.le_of_lt_succ below, cond, guard, shape⟩

end ScanGenerator
end MfQuery
