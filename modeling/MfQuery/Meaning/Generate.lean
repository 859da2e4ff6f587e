import MfQuery.Meaning.Main

/-!
# The generated table

The repository comes with a program that fills the table with random entries.
Its integers lie between one and 2017, and there are fewer than `2 ^ 31`
entries. On such a table no sum leaves its field and no maximum is cut off, so
the program emitted for a query prints the answer of the query.
-/

namespace MfQuery

open Text

/-! ## Parameterised statements -/

/-- An argument behind the types and the statement, floating point left out. -/
inductive Argument
  | string (text : Text)
  | int (value : Int)
  | long (value : Int)
  | unsigned (value : Int)
  deriving DecidableEq, Repr

namespace Argument

/-- The letter the argument is passed under. -/
def letter : Argument → Char
  | string _ => 's'
  | int _ => 'i'
  | long _ => 'l'
  | unsigned _ => 'u'

/-- The value the server receives. -/
def value : Argument → Value
  | string text => .str text
  | int value | long value | unsigned value => .int value

end Argument

/-- The loop of `SQLConn::execute` over the types. A letter takes the next
argument, which has to be there and of its type, and sets the parameter at its
own position. An unknown letter is reported and takes no argument. -/
def bindArguments : Text → List Argument → Nat → Option (List (Nat × Argument))
  | [], _, _ => some []
  | letter :: types, arguments, position =>
      if letter ∈ ['s', 'i', 'l', 'd', 'u'] then
        match arguments with
        | [] => none
        | argument :: rest =>
            if argument.letter = letter then
              (bindArguments types rest (position + 1)).map ((position, argument) :: ·)
            else none
      else bindArguments types arguments (position + 1)

/-- A statement sent with its parameters. -/
structure Executed where
  statement : Text
  parameters : List (Nat × Argument)

/-- `SQLConn::execute` of a parameterised statement. -/
def execute (types statement : Text) (arguments : List Argument) : Option Executed :=
  (bindArguments types arguments 1).map fun parameters => ⟨statement, parameters⟩

/-- The row an `INSERT` of these columns stores. -/
def Executed.stored (columns : List Text) (executed : Executed) : Row := fun name =>
  ((executed.parameters.lookup (columns.idxOf name + 1)).map Argument.value).getD .zero

/-! ## The generator -/

/-- `customers`. -/
def customers : List Text :=
  ["JAMES", "JOHN", "ROBERT", "MICHAEL", "WILLIAM", "DAVID", "RICHARD", "CHARLES", "JOSEPH",
    "THOMAS", "CHRISTOPHER", "DANIEL", "PAUL", "MARK", "DONALD", "GEORGE", "KENNETH", "STEVEN",
    "EDWARD", "BRIAN", "RONALD", "ANTHONY", "KEVIN", "JASON", "MATTHEW", "GARY", "TIMOTHY",
    "JOSE", "LARRY", "JEFFREY", "FRANK", "SCOTT", "ERIC", "STEPHEN", "ANDREW", "RAYMOND",
    "GREGORY", "JOSHUA", "JERRY", "DENNIS", "WALTER", "PATRICK", "PETER", "HAROLD", "DOUGLAS",
    "HENRY", "CARL", "ARTHUR", "RYAN", "ROGER", "JOE", "JUAN", "JACK", "ALBERT", "JONATHAN",
    "JUSTIN", "TERRY", "GERALD", "KEITH", "SAMUEL", "WILLIE", "RALPH", "LAWRENCE", "NICHOLAS",
    "ROY", "BENJAMIN", "BRUCE", "BRANDON", "ADAM", "HARRY", "FRED", "WAYNE", "BILLY", "STEVE",
    "LOUIS", "JEREMY", "AARON", "RANDY", "HOWARD", "EUGENE", "CARLOS", "RUSSELL", "BOBBY",
    "VICTOR", "MARTIN", "ERNEST", "PHILLIP", "TODD", "JESSE", "CRAIG", "ALAN", "SHAWN",
    "CLARENCE", "SEAN", "PHILIP", "CHRIS", "JOHNNY", "EARL", "JIMMY", "ANTONIO", "DANNY",
    "BRYAN", "TONY", "LUIS", "MIKE", "STANLEY", "LEONARD", "NATHAN", "DALE", "MANUEL", "RODNEY",
    "CURTIS", "NORMAN", "ALLEN", "MARVIN", "VINCENT", "GLENN", "JEFFERY", "TRAVIS", "JEFF",
    "CHAD", "JACOB", "LEE", "MELVIN", "ALFRED", "KYLE", "FRANCIS", "BRADLEY", "JESUS", "HERBERT",
    "FREDERICK", "RAY", "JOEL", "EDWIN", "DON", "EDDIE", "RICKY", "TROY", "RANDALL", "BARRY",
    "ALEXANDER", "BERNARD", "MARIO", "LEROY", "FRANCISCO", "MARCUS", "MICHEAL", "THEODORE",
    "CLIFFORD", "MIGUEL", "OSCAR", "JAY", "JIM", "TOM", "CALVIN", "ALEX", "JON", "RONNIE",
    "BILL", "LLOYD", "TOMMY", "LEON", "DEREK", "WARREN", "DARRELL", "JEROME", "FLOYD", "LEO",
    "ALVIN", "TIM", "WESLEY", "GORDON", "DEAN", "GREG", "JORGE", "DUSTIN", "PEDRO", "DERRICK",
    "DAN", "LEWIS", "ZACHARY", "COREY", "HERMAN", "MAURICE", "VERNON", "ROBERTO", "CLYDE",
    "GLEN", "HECTOR", "SHANE", "RICARDO", "SAM", "RICK", "LESTER", "BRENT", "RAMON", "CHARLIE",
    "TYLER", "GILBERT", "GENE", "MARC", "REGINALD", "RUBEN", "BRETT", "ANGEL", "NATHANIEL",
    "RAFAEL", "LESLIE", "EDGAR", "MILTON", "RAUL", "BEN", "CHESTER", "CECIL", "DUANE",
    "FRANKLIN", "ANDRE", "ELMER", "BRAD", "GABRIEL", "RON", "MITCHELL", "ROLAND", "ARNOLD",
    "HARVEY", "JARED", "ADRIAN", "KARL", "CORY", "CLAUDE", "ERIK", "DARRYL", "JAMIE", "NEIL",
    "JESSIE", "CHRISTIAN", "JAVIER", "FERNANDO", "CLINTON", "TED", "MATHEW", "TYRONE", "DARREN",
    "LONNIE", "LANCE", "CODY", "JULIO", "KELLY", "KURT", "ALLAN", "NELSON", "GUY", "CLAYTON",
    "HUGH", "MAX", "DWAYNE", "DWIGHT", "ARMANDO", "FELIX", "JIMMIE", "EVERETT", "JORDAN", "IAN",
    "WALLACE", "KEN", "BOB", "JAIME", "CASEY", "ALFREDO", "ALBERTO", "DAVE", "IVAN", "JOHNNIE",
    "SIDNEY", "BYRON", "JULIAN", "ISAAC", "MORRIS", "CLIFTON", "WILLARD", "DARYL", "ROSS",
    "VIRGIL", "ANDY", "MARSHALL", "SALVADOR", "PERRY", "KIRK", "SERGIO", "MARION", "TRACY",
    "SETH", "KENT", "TERRANCE", "RENE", "EDUARDO", "TERRENCE", "ENRIQUE", "FREDDIE", "WADE",
    "AUSTIN", "STUART", "FREDRICK", "ARTURO", "ALEJANDRO", "JACKIE", "JOEY", "NICK", "LUTHER",
    "WENDELL", "JEREMIAH", "EVAN", "JULIUS", "DANA", "DONNIE", "OTIS", "SHANNON", "TREVOR",
    "OLIVER", "LUKE", "HOMER", "GERARD", "DOUG", "KENNY", "HUBERT", "ANGELO", "SHAUN", "LYLE",
    "MATT", "LYNN", "ALFONSO", "ORLANDO", "REX", "CARLTON", "ERNESTO", "CAMERON", "NEAL",
    "PABLO", "LORENZO", "OMAR", "WILBUR", "BLAKE", "GRANT", "HORACE", "RODERICK", "KERRY",
    "ABRAHAM", "WILLIS", "RICKEY", "JEAN", "IRA", "ANDRES", "CESAR", "JOHNATHAN", "MALCOLM",
    "RUDOLPH", "DAMON", "KELVIN", "RUDY", "PRESTON", "ALTON", "ARCHIE", "MARCO", "WM", "PETE",
    "RANDOLPH", "GARRY", "GEOFFREY", "JONATHON", "FELIPE", "BENNIE", "GERARDO", "ED", "DOMINIC",
    "ROBIN", "LOREN", "DELBERT", "COLIN", "GUILLERMO", "EARNEST", "LUCAS", "BENNY", "NOEL",
    "SPENCER", "RODOLFO", "MYRON", "EDMUND", "GARRETT", "SALVATORE", "CEDRIC", "LOWELL", "GREGG",
    "SHERMAN", "WILSON", "DEVIN", "SYLVESTER", "KIM", "ROOSEVELT", "ISRAEL", "JERMAINE",
    "FORREST", "WILBERT", "LELAND", "SIMON", "GUADALUPE", "CLARK", "IRVING", "CARROLL", "BRYANT",
    "OWEN", "RUFUS", "WOODROW", "SAMMY", "KRISTOPHER", "MACK", "LEVI", "MARCOS", "GUSTAVO",
    "JAKE", "LIONEL", "MARTY", "TAYLOR", "ELLIS", "DALLAS"]

/-- `products`. -/
def products : List Text :=
  ["A", "B", "C", "D", "E", "F", "G", "H", "I", "J", "K", "L", "M", "N", "O", "P"]

/-- `states`. -/
def states : List Text :=
  ["AK", "AL", "AZ", "AR", "CA", "CO", "CT", "DE", "FL", "GA", "HI", "ID", "IL", "IN", "IA",
    "KS", "KY", "LA", "ME", "MD", "MA", "MI", "MN", "MS", "MO", "MT", "NE", "NV", "NH", "NJ",
    "NM", "NY", "NC", "ND", "OH", "OK", "OR", "PA", "RI", "SC", "SD", "TN", "TX", "UT", "VT",
    "VA", "WA", "WV", "WI", "WY"]

/-- The columns of the statement. -/
def entryColumns : List Text := ["cust", "prod", "day", "month", "year", "state", "quant"]

/-- The statement of the generator. -/
def insertStatement : Text :=
  "INSERT INTO `" ++ tableName ++
    "` (cust,prod,day,month,year,state,quant) VALUES (?,?,?,?,?,?,?)"

/-- The arguments of one entry. The numbers `rand` returns are a stream, of which
earlier entries have taken `calls`. -/
def entryArguments (rand : Nat → Nat) (calls : Nat) : List Argument :=
  [.string (customers.getD (rand calls % 424) []),
    .string (products.getD (rand (calls + 1) % 16) []),
    .int (rand (calls + 2) % 28 + 1 : Nat),
    .int (rand (calls + 3) % 12 + 1 : Nat),
    .int (1996 + rand (calls + 4) % 22 : Nat),
    .string (states.getD (rand (calls + 5) % 50) []),
    .int (rand (calls + 6) % 1000 + 1 : Nat)]

/-- The loop of the generator. -/
def generateLoop (rand : Nat → Nat) : Nat → Nat → Option (List Executed)
  | 0, _ => some []
  | remaining + 1, calls =>
      (execute "ssiiisi" insertStatement (entryArguments rand calls)).bind fun executed =>
        (generateLoop rand remaining (calls + 7)).map (executed :: ·)

/-- The number of entries for the arguments behind the name of the program. -/
def entriesOf : List Text → Int
  | [argument] => atoi argument
  | _ => 3000

/-- `main` of the generator. -/
def generate (arguments : List Text) (rand : Nat → Nat) : Option (List Executed) :=
  generateLoop rand (entriesOf arguments).toNat 0

/-! ## What is stored -/

theorem lookup_positions
    (arguments : List Argument)
    (position index : Nat) :
    ((List.range' position arguments.length).zip arguments).lookup (position + index) =
      arguments[index]? := by
  induction arguments generalizing position index with
  | nil => rfl
  | cons argument rest inductionHypothesis =>
      rw [List.length_cons, List.range'_succ, List.zip_cons_cons, List.lookup_cons]
      cases index with
      | zero => simp
      | succ index =>
          have shifted : position + (index + 1) = position + 1 + index := by omega
          have later : (position + 1 + index == position) = false := by
            rw [beq_eq_false_iff_ne]
            omega
          simp only [shifted, later, inductionHypothesis, List.getElem?_cons_succ]

/-- Arguments passed under their own letters are all bound, in order. -/
theorem bindArguments_letters
    (arguments : List Argument)
    (position : Nat) :
    bindArguments (arguments.map Argument.letter) arguments position =
      some ((List.range' position arguments.length).zip arguments) := by
  induction arguments generalizing position with
  | nil => rfl
  | cons argument rest inductionHypothesis =>
      have known : argument.letter ∈ ['s', 'i', 'l', 'd', 'u'] := by
        cases argument <;> simp [Argument.letter]
      rw [List.map_cons, bindArguments, if_pos known]
      simp only [if_true, inductionHypothesis, Option.map_some, List.length_cons,
        List.range'_succ, List.zip_cons_cons]

/-- The stored row holds the arguments in the order of the columns. -/
theorem exists_execute
    {types : Text}
    {arguments : List Argument}
    (letters : arguments.map Argument.letter = types)
    (statement : Text) :
    ∃ executed, execute types statement arguments = some executed ∧
      ∀ columns name, executed.stored columns name =
        ((arguments[columns.idxOf name]?).map Argument.value).getD .zero := by
  refine ⟨⟨statement, (List.range' 1 arguments.length).zip arguments⟩, ?_, fun columns name => ?_⟩
  · rw [execute, ← letters, bindArguments_letters, Option.map_some]
  · rw [Executed.stored, Nat.add_comm, lookup_positions]

/-- The string columns of an entry. -/
def entryTexts : List Text := ["cust", "prod", "state"]

/-- The integer columns of an entry. -/
def entryNumbers : List Text := ["day", "month", "year", "quant"]

/-- A row as the generator stores them. -/
structure IsEntry (row : Row) : Prop where
  texts : ∀ name ∈ entryTexts, ∃ text, row name = .str text
  numbers : ∀ name ∈ entryNumbers, ∃ number, row name = .int number
  range : ∀ name number, row name = .int number → 1 ≤ number ∧ number ≤ 2017

/-- The integers of an entry lie between one and 2017. -/
theorem range_entryArguments
    {rand : Nat → Nat}
    {calls : Nat}
    {argument : Argument}
    (member : argument ∈ entryArguments rand calls)
    {number : Int}
    (isNumber : argument.value = .int number) :
    1 ≤ number ∧ number ≤ 2017 := by
  simp only [entryArguments, List.mem_cons, List.not_mem_nil, or_false] at member
  rcases member with rfl | rfl | rfl | rfl | rfl | rfl | rfl <;>
    simp only [Argument.value, Value.int.injEq, reduceCtorEq] at isNumber <;> omega

/-- Every statement of the generator stores an entry. -/
theorem exists_entry
    (rand : Nat → Nat)
    (calls : Nat) :
    ∃ executed, execute "ssiiisi" insertStatement (entryArguments rand calls) = some executed ∧
      IsEntry (executed.stored entryColumns) := by
  obtain ⟨executed, isExecuted, stored⟩ :=
    exists_execute (rfl : (entryArguments rand calls).map Argument.letter = "ssiiisi".toList)
      insertStatement
  refine ⟨executed, isExecuted, ?_, ?_, ?_⟩
  · simp only [entryTexts, List.forall_mem_cons, stored]
    exact ⟨⟨_, rfl⟩, ⟨_, rfl⟩, ⟨_, rfl⟩, fun _ => nofun⟩
  · simp only [entryNumbers, List.forall_mem_cons, stored]
    exact ⟨⟨_, rfl⟩, ⟨_, rfl⟩, ⟨_, rfl⟩, ⟨_, rfl⟩, fun _ => nofun⟩
  · intro name number isNumber
    rw [stored] at isNumber
    cases found : (entryArguments rand calls)[entryColumns.idxOf name]? with
    | none =>
        rw [found] at isNumber
        cases isNumber
    | some argument =>
        rw [found] at isNumber
        exact range_entryArguments (List.mem_of_getElem? found) isNumber

/-- The rows the generator stores. -/
def generatedTable (arguments : List Text) (rand : Nat → Nat) : Option (List Row) :=
  (generate arguments rand).map fun executed => executed.map (Executed.stored entryColumns)

theorem exists_generateLoop
    (rand : Nat → Nat)
    (remaining calls : Nat) :
    ∃ executed, generateLoop rand remaining calls = some executed ∧
      executed.length = remaining ∧
      ∀ statement ∈ executed, IsEntry (statement.stored entryColumns) := by
  induction remaining generalizing calls with
  | zero => exact ⟨[], rfl, rfl, fun _ => nofun⟩
  | succ remaining inductionHypothesis =>
      obtain ⟨first, isFirst, entry⟩ := exists_entry rand calls
      obtain ⟨later, isLater, length, entries⟩ := inductionHypothesis (calls + 7)
      refine ⟨first :: later, ?_, by rw [List.length_cons, length], ?_⟩
      · rw [generateLoop, isFirst, Option.bind_some, isLater, Option.map_some]
      · rw [List.forall_mem_cons]
        exact ⟨entry, entries⟩

/-- The generator stores as many entries as it is asked for. -/
theorem exists_generatedTable
    (arguments : List Text)
    (rand : Nat → Nat) :
    ∃ table, generatedTable arguments rand = some table ∧
      table.length = (entriesOf arguments).toNat ∧ ∀ row ∈ table, IsEntry row := by
  obtain ⟨executed, isExecuted, length, entries⟩ :=
    exists_generateLoop rand (entriesOf arguments).toNat 0
  refine ⟨executed.map (Executed.stored entryColumns), ?_, ?_, ?_⟩
  · rw [generatedTable, generate, isExecuted, Option.map_some]
  · rw [List.length_map, length]
  · intro row member
    obtain ⟨statement, inside, rfl⟩ := List.mem_map.mp member
    exact entries statement inside

theorem entriesOf_lt (arguments : List Text) : entriesOf arguments < 2 ^ 31 := by
  unfold entriesOf
  split
  · exact Int.bmod_lt (by decide)
  · decide

/-! ## Queries on the generated table -/

/-- The integer and string columns of the table are those of the entries. -/
structure EntryColumns (columns : List Column) : Prop where
  texts : ∀ column ∈ columns, column.ctype = .string → column.name ∈ entryTexts
  numbers : ∀ column ∈ columns, column.ctype = .int64 → column.name ∈ entryNumbers

theorem IsEntry.conforms
    {columns : List Column}
    (schema : EntryColumns columns)
    {row : Row}
    (entry : IsEntry row) :
    Conforms columns row := by
  intro column inTable type
  rcases type with isInt | isString
  · obtain ⟨number, isNumber⟩ := entry.numbers column.name (schema.numbers column inTable isInt)
    have range := entry.range column.name number isNumber
    rw [isInt, isNumber]
    exact ⟨by omega, by omega⟩
  · obtain ⟨text, isText⟩ := entry.texts column.name (schema.texts column inTable isString)
    rw [isString, isText]
    exact trivial

section Entries

variable {rows : List Row} (entries : ∀ row ∈ rows, IsEntry row)
include entries

/-- Sums over entries are bounded by their number. -/
theorem columnSum_entries
    {column : Text}
    (isNumber : column ∈ entryNumbers) :
    0 ≤ columnSum column rows ∧ columnSum column rows ≤ rows.length * 2017 := by
  have bounds : ∀ value ∈ rows.map fun row => (row column).asInt, 0 ≤ value ∧ value ≤ 2017 := by
    intro value member
    obtain ⟨row, inRows, rfl⟩ := List.mem_map.mp member
    obtain ⟨number, stored⟩ := (entries row inRows).numbers column isNumber
    have range := (entries row inRows).range column number stored
    rw [stored, Value.asInt]
    omega
  constructor
  · exact List.sum_nonneg fun value member => (bounds value member).1
  · have bounded := List.sum_le_card_nsmul _ 2017 fun value member => (bounds value member).2
    rwa [List.length_map, nsmul_eq_mul] at bounded

/-- Every aggregate but a minimum fits its field. -/
theorem Func.fits_entries
    (few : rows.length < 2 ^ 31)
    {func : Func}
    {column : Text}
    (isNumber : func ≠ .count → column ∈ entryNumbers)
    (notMin : func ≠ .min) :
    func.Fits column rows := by
  cases func with
  | count => exact trivial
  | sum | avg =>
      have bounds := columnSum_entries entries (isNumber nofun)
      exact ⟨by omega, by omega⟩
  | min => exact absurd rfl notMin
  | max =>
      cases rows with
      | nil => exact .inl rfl
      | cons row rest =>
          have entry := entries row (List.mem_cons_self ..)
          obtain ⟨number, stored⟩ := entry.numbers column (isNumber nofun)
          have range := entry.range column number stored
          refine .inr ⟨row, List.mem_cons_self .., ?_⟩
          rw [stored, Value.asInt]
          omega

end Entries

/-- The aggregates are over integer columns of the entries, and none of them is a
minimum. -/
def Source.AsksOfEntries (source : Source) : Prop :=
  ∀ term ∈ source.fVect, term.func ≠ .min ∧ (term.func ≠ .count → term.column ∈ entryNumbers)

/-- Fewer than `2 ^ 31` entries stay within the arithmetic of the machine. -/
theorem Source.AsksOfEntries.fits
    {source : Source}
    (asks : source.AsksOfEntries)
    (schema : EntryColumns source.columns)
    {rows : List Row}
    (entries : ∀ row ∈ rows, IsEntry row)
    (few : rows.length < 2 ^ 31)
    (exact : ∀ kept ∈ firsts (keyOf source.groupingAttr) rows, ∀ formula,
      source.having = some formula →
        formula.ExactOn fun term => term.value (source.rows rows kept)) :
    source.Fits rows where
  few := few
  conforms row member := (entries row member).conforms schema
  integers term member sums row inRows :=
    (entries row inRows).numbers term.column ((asks term member).2 sums)
  fits kept isKept term member := by
    have selected : ∀ row ∈ source.rows rows kept term.group, IsEntry row :=
      fun row inside => entries row (List.mem_of_mem_filter inside)
    have fewer : (source.rows rows kept term.group).length < 2 ^ 31 :=
      (List.length_filter_le ..).trans_lt few
    exact Func.fits_entries selected fewer (asks term member).2 (asks term member).1
  exact := exact

theorem entryColumns_saleColumns : EntryColumns saleColumns where
  texts := by decide
  numbers := by decide

theorem asksOfEntries_saleSource
    (line : Line)
    (emf : Bool) :
    (saleSource line emf).AsksOfEntries := by
  intro term member
  rcases List.mem_pair.mp member with rfl | rfl <;> decide

end MfQuery
