import MfQuery.Program.Frame
import MfQuery.Program.Prelim
import MfQuery.Query

/-!
# Lockstep of the group vectors

After the first pass the result vector and all group vectors have one record
per kept row, at the same index and with the same plain columns. Scans never
change plain columns, so this stays true at every point of the scans, and the
position of a key is the same in every vector: the position of the key among
the kept rows.
-/

namespace MfQuery

open Text

/-- Two records agree on the given columns. -/
def AgreeOn (columns : List Text) (left right : Record) : Prop :=
  ∀ column ∈ columns, right column = left column

/-- The result vector and the group vectors follow the kept rows. -/
structure Lockstep (generator : ScanGenerator) (store : Store) : Prop where
  results : List.Forall₂ (AgreeOn generator.selectColumns) store.uniques store.mfStruct
  groups : ∀ k ≤ generator.noGroupingVars,
    List.Forall₂ (AgreeOn generator.selectColumns) store.uniques (store.group k)

namespace Lockstep

variable {generator : ScanGenerator} {store : Store}

theorem length_group
    (lockstep : Lockstep generator store)
    {k : Nat}
    (inRange : k ≤ generator.noGroupingVars) :
    (store.group k).length = store.uniques.length :=
  (lockstep.groups k inRange).length_eq.symm

/-- The first pass establishes lockstep. -/
theorem prelimStore
    (generator : ScanGenerator)
    (cols : List Ct)
    (table : List Row) :
    Lockstep generator (generator.prelimStore cols table) := by
  have copies : List.Forall₂ (AgreeOn generator.selectColumns) (getUniques cols table)
      ((getUniques cols table).map (plainRecord generator.selectColumns)) := by
    refine List.forall₂_iff_get.mpr ⟨by simp, fun i _ _ column member => ?_⟩
    simp [plainRecord, member]
  refine ⟨copies, fun k inRange => ?_⟩
  simp only [ScanGenerator.prelimStore, inRange, if_true]
  exact copies

/-- Scans keep lockstep. -/
theorem keep
    {after : Store}
    {allowed : Nat → Prop}
    (plain : ∀ column ∈ generator.selectColumns, '_' ∉ column)
    (lockstep : Lockstep generator store)
    (kept : Store.Keeps allowed store after) :
    Lockstep generator after := by
  constructor
  · rw [kept.uniques_eq, kept.mfStruct_eq]
    exact lockstep.results
  · intro k inRange
    rw [kept.uniques_eq]
    have before := List.forall₂_iff_get.mp (lockstep.groups k inRange)
    have step := List.forall₂_iff_get.mp (kept.records k)
    refine List.forall₂_iff_get.mpr ⟨before.1.trans step.1, fun i inUniques inGroup => ?_⟩
    intro column member
    have middle : i < (store.group k).length := before.1 ▸ inUniques
    exact (step.2 i middle inGroup column (plain column member)).trans
      (before.2 i inUniques middle column member)

end Lockstep

/-! ## Looking up keys -/

/-- The match of a lookup reads only the key columns. -/
theorem argumentsMatch_congr
    {cols : List Ct}
    {left right : Record}
    (agree : ∀ col ∈ cols, right col.name = left col.name)
    (arguments : List Value) :
    argumentsMatch cols arguments right = argumentsMatch cols arguments left := by
  unfold argumentsMatch
  rw [Bool.eq_iff_iff, List.all_eq_true, List.all_eq_true]
  constructor <;>
    intro matches_ pair member <;>
    have same := agree pair.1 (List.of_mem_zip member).1 <;>
    have found := matches_ pair member
  · rwa [same] at found
  · rwa [same]

/-- What the emitted program relies on when it looks up keys: the key columns
have integer or string type and are copied into every vector. -/
structure Keyed (generator : ScanGenerator) (cols : List Ct) (table : List Row) : Prop where
  parsed : generator.Parsed
  names : cols.map Ct.name = generator.groupingAttr
  typed : KeyTyped cols table
  copied : ∀ attr ∈ generator.groupingAttr, attr ∈ generator.selectColumns

/-- Positions of keys fit into an `int`: there are fewer than `2 ^ 31` groups. -/
def FewKeys (groupingAttr : List Text) (table : List Row) : Prop :=
  (firsts (keyOf groupingAttr) table).length < 2 ^ 31

theorem FewKeys.of_length
    {table : List Row}
    (few : table.length < 2 ^ 31)
    (groupingAttr : List Text) :
    FewKeys groupingAttr table :=
  (FirstOccurrence.firsts_sublist _ table).length_le.trans_lt few

/-- What a query and its table have to satisfy for key lookups: the key types
found by `get_ct` are integer or string types the table conforms to, and the
keys are plain columns of the select list. -/
structure Query.KeyedBy (query : Query) (cols : List Ct) (table : List Row) : Prop where
  key_types : getCt query.groupingAttr query.columns = some cols
  typed : KeyTyped cols table
  plain : ∀ attr ∈ query.groupingAttr, attr ∈ getSelectColumns query.selectAttribute

theorem Query.KeyedBy.keyed
    {query : Query}
    {cols : List Ct}
    {table : List Row}
    (keyedBy : query.KeyedBy cols table)
    {generator : ScanGenerator}
    (built : query.scanGenerator = some generator) :
    Keyed generator cols table := by
  have parsed := Query.parsed_scanGenerator built
  obtain ⟨_, _, _, -, -, -, rfl⟩ := (query.scanGenerator_eq_some_iff generator).mp built
  exact ⟨parsed, map_name_getCt keyedBy.key_types, keyedBy.typed, keyedBy.plain⟩

/-- Two customers; the second one has a single sale. -/
def saleTable : List Row :=
  [("A", 4), ("B", 9), ("A", 7), ("A", 20)].map fun sale field =>
    if field = "cust".toList then .str (sale : String × Int).1.toList else .int sale.2

theorem saleQuery_keyedBy (emf : Bool) :
    (saleQuery emf).KeyedBy [⟨"cust", .string⟩] saleTable where
  key_types := rfl
  typed := by
    intro col member
    rw [List.mem_singleton] at member
    subst col
    refine ⟨.inl rfl, fun row inTable => ?_⟩
    obtain ⟨sale, -, rfl⟩ := List.mem_map.mp inTable
    exact ⟨_, rfl⟩
  plain := by cases emf <;> decide

namespace Keyed

variable {generator : ScanGenerator} {cols : List Ct} {table : List Row}

theorem getUniques_eq (keyed : Keyed generator cols table) :
    getUniques cols table = firsts (keyOf generator.groupingAttr) table := by
  rw [getUniques_eq_firsts keyed.typed, keyed.names]

/-- Records that follow a row have its key. -/
theorem keyOf_eq
    (keyed : Keyed generator cols table)
    {row record : Record}
    (agree : AgreeOn generator.selectColumns row record) :
    keyOf generator.groupingAttr record = keyOf generator.groupingAttr row := by
  refine List.map_congr_left fun attr member => ?_
  exact agree attr (keyed.copied attr member)

/-- In a vector that follows the kept rows, a lookup of the key of a table row
finds the position of that key among the kept rows, as an `int`. -/
theorem vfind_eq_wrap32
    (keyed : Keyed generator cols table)
    {vector : List Record}
    (follows : List.Forall₂ (AgreeOn generator.selectColumns)
      (firsts (keyOf generator.groupingAttr) table) vector)
    {row : Row}
    (member : row ∈ table) :
    vfind cols vector (keyOf generator.groupingAttr row) =
      wrap32 (keyIndex (keyOf generator.groupingAttr)
        (firsts (keyOf generator.groupingAttr) table) (keyOf generator.groupingAttr row)) := by
  have inside := FirstOccurrence.keyIndex_firsts_lt (keyOf generator.groupingAttr)
    (List.mem_map_of_mem member)
  set key := keyOf generator.groupingAttr with keyDef
  set uniques := firsts key table with uniquesDef
  obtain ⟨sameLength, agree⟩ := List.forall₂_iff_get.mp follows
  have fromTable : ∀ u ∈ uniques, u ∈ table := fun u kept =>
    (FirstOccurrence.firsts_sublist key table).subset kept
  -- the comparison with the record at an index is equality with that index's key
  have exact_ : ∀ (i : Nat) (inUniques : i < uniques.length) (inVector : i < vector.length),
      argumentsMatch cols (key row) (vector.get ⟨i, inVector⟩) = true ↔
        key (uniques.get ⟨i, inUniques⟩) = key row := by
    intro i inUniques inVector
    have sameColumns : ∀ col ∈ cols,
        (vector.get ⟨i, inVector⟩) col.name = (uniques.get ⟨i, inUniques⟩) col.name := by
      intro col inCols
      have attr : col.name ∈ generator.groupingAttr :=
        keyed.names ▸ List.mem_map_of_mem inCols
      exact agree i inUniques inVector col.name (keyed.copied _ attr)
    have typedPair : KeyTyped cols [row, uniques.get ⟨i, inUniques⟩] :=
      keyed.typed.subset (by simp [member, fromTable])
    rw [argumentsMatch_congr sameColumns, keyDef, ← keyed.names]
    exact argumentsMatch_eq_true_iff typedPair
  have found : vector.findIdx? (argumentsMatch cols (key row)) =
      some (keyIndex key uniques (key row)) := by
    rw [List.findIdx?_eq_some_iff_getElem]
    refine ⟨sameLength ▸ inside, ?_, fun j earlier => ?_⟩
    · exact (exact_ _ inside (sameLength ▸ inside)).mpr
        (FirstOccurrence.key_getElem_keyIndex key inside)
    · have jInside : j < uniques.length := earlier.trans inside
      intro same
      have equal := (exact_ j jInside (sameLength ▸ jInside)).mp same
      have index := FirstOccurrence.keyIndex_getElem key
        (FirstOccurrence.nodup_map_firsts key table) jInside
      rw [equal, ← uniquesDef] at index
      omega
  unfold vfind
  rw [found]

/-- With few groups a lookup finds the position itself. -/
theorem vfind_eq
    (keyed : Keyed generator cols table)
    (few : FewKeys generator.groupingAttr table)
    {vector : List Record}
    (follows : List.Forall₂ (AgreeOn generator.selectColumns)
      (firsts (keyOf generator.groupingAttr) table) vector)
    {row : Row}
    (member : row ∈ table) :
    vfind cols vector (keyOf generator.groupingAttr row) =
      keyIndex (keyOf generator.groupingAttr) (firsts (keyOf generator.groupingAttr) table)
        (keyOf generator.groupingAttr row) := by
  have inside := FirstOccurrence.keyIndex_firsts_lt (keyOf generator.groupingAttr)
    (List.mem_map_of_mem member)
  unfold FewKeys at few
  rw [keyed.vfind_eq_wrap32 follows member, wrap32_of_bounds] <;> omega

/-- The position an `int` lookup result denotes as an index. -/
theorem toSizeT_vfind
    (keyed : Keyed generator cols table)
    (few : FewKeys generator.groupingAttr table)
    {vector : List Record}
    (follows : List.Forall₂ (AgreeOn generator.selectColumns)
      (firsts (keyOf generator.groupingAttr) table) vector)
    {row : Row}
    (member : row ∈ table) :
    toSizeT (vfind cols vector (keyOf generator.groupingAttr row)) =
      keyIndex (keyOf generator.groupingAttr) (firsts (keyOf generator.groupingAttr) table)
        (keyOf generator.groupingAttr row) := by
  have inside := FirstOccurrence.keyIndex_firsts_lt (keyOf generator.groupingAttr)
    (List.mem_map_of_mem member)
  unfold FewKeys at few
  rw [keyed.vfind_eq few follows member, toSizeT]
  omega

/-- A record that follows a kept row is looked up at the position of its
key. -/
theorem vfind_eq_of_follows
    (keyed : Keyed generator cols table)
    (few : FewKeys generator.groupingAttr table)
    {vector : List Record}
    (follows : List.Forall₂ (AgreeOn generator.selectColumns)
      (firsts (keyOf generator.groupingAttr) table) vector)
    {kept record : Record}
    (isKept : kept ∈ firsts (keyOf generator.groupingAttr) table)
    (agree : AgreeOn generator.selectColumns kept record) :
    vfind cols vector (keyOf generator.groupingAttr record) =
      keyIndex (keyOf generator.groupingAttr) (firsts (keyOf generator.groupingAttr) table)
        (keyOf generator.groupingAttr record) := by
  rw [keyed.keyOf_eq agree]
  exact keyed.vfind_eq few follows ((FirstOccurrence.firsts_sublist _ table).subset isKept)

end Keyed

/-! ## Throughout the scans -/

/-- The vectors from the end of the first pass on: the kept rows are the first
rows of the keys, the results are their plain columns, and the group vectors
are in lockstep with them. -/
structure InStep (generator : ScanGenerator) (table : List Row) (store : Store) : Prop where
  data_eq : store.data = table
  uniques_eq : store.uniques = firsts (keyOf generator.groupingAttr) table
  results_eq : store.mfStruct = (firsts (keyOf generator.groupingAttr) table).map
    (plainRecord generator.selectColumns)
  lockstep : Lockstep generator store

namespace InStep

variable {generator : ScanGenerator} {cols : List Ct} {table : List Row} {store : Store}

theorem prelimStore (keyed : Keyed generator cols table) :
    InStep generator table (generator.prelimStore cols table) where
  data_eq := rfl
  uniques_eq := keyed.getUniques_eq
  results_eq := by rw [ScanGenerator.prelimStore, keyed.getUniques_eq]
  lockstep := .prelimStore generator cols table

theorem keep
    {after : Store}
    {allowed : Nat → Prop}
    (parsed : generator.Parsed)
    (inStep : InStep generator table store)
    (kept : Store.Keeps allowed store after) :
    InStep generator table after where
  data_eq := kept.data_eq.trans inStep.data_eq
  uniques_eq := kept.uniques_eq.trans inStep.uniques_eq
  results_eq := kept.mfStruct_eq.trans inStep.results_eq
  lockstep := inStep.lockstep.keep parsed.plain_column kept

/-- Every group vector follows the first rows of the keys. -/
theorem follows
    (inStep : InStep generator table store)
    {k : Nat}
    (inRange : k ≤ generator.noGroupingVars) :
    List.Forall₂ (AgreeOn generator.selectColumns)
      (firsts (keyOf generator.groupingAttr) table) (store.group k) :=
  inStep.uniques_eq ▸ inStep.lockstep.groups k inRange

/-- Every result record follows a kept row. -/
theorem exists_kept
    (inStep : InStep generator table store)
    {entry : Record}
    (member : entry ∈ store.mfStruct) :
    ∃ kept ∈ firsts (keyOf generator.groupingAttr) table,
      AgreeOn generator.selectColumns kept entry := by
  rw [inStep.results_eq] at member
  obtain ⟨kept, isKept, rfl⟩ := List.mem_map.mp member
  exact ⟨kept, isKept, fun column inside => by simp [plainRecord, inside]⟩

/-- The key of a table row or of a result record is found in every group
vector at its position among the kept rows. -/
theorem vfind_eq
    (keyed : Keyed generator cols table)
    (few : FewKeys generator.groupingAttr table)
    (inStep : InStep generator table store)
    {k : Nat}
    (inRange : k ≤ generator.noGroupingVars)
    {entry : Record}
    (member : entry ∈ table ∨ entry ∈ store.mfStruct) :
    vfind cols (store.group k) (keyOf generator.groupingAttr entry) =
        keyIndex (keyOf generator.groupingAttr) store.uniques
          (keyOf generator.groupingAttr entry) ∧
      keyIndex (keyOf generator.groupingAttr) store.uniques
        (keyOf generator.groupingAttr entry) < store.uniques.length := by
  rw [inStep.uniques_eq]
  rcases member with inTable | inResults
  · exact ⟨keyed.vfind_eq few (inStep.follows inRange) inTable,
      FirstOccurrence.keyIndex_firsts_lt _ (List.mem_map_of_mem inTable)⟩
  · obtain ⟨kept, isKept, agree⟩ := inStep.exists_kept inResults
    refine ⟨keyed.vfind_eq_of_follows few (inStep.follows inRange) isKept agree, ?_⟩
    rw [keyed.keyOf_eq agree]
    exact FirstOccurrence.keyIndex_firsts_lt _
      (List.mem_map_of_mem ((FirstOccurrence.firsts_sublist _ table).subset isKept))

end InStep
end MfQuery
