import MmDriver.Common.CpuMemStat

/-!
# `SQLite_Result`, the rows of a query

`include/db/sqlite_result.h` and `src/db/sqlite_result.cpp`. The table of `sqlite3_get_table` is one
array: first the names of the columns, then the rows. Two cursors say where the next extraction
reads.

A cell is a C string, less its end, or null. The pointer `result_` is the array behind it, and
`none` where it is null.
-/

namespace MmDriver

/-- A cell of a table. -/
abbrev SQLiteCell := Option (List UInt8)

/-! ## What a cell is converted with -/

/-- `strtol(text, NULL, 10)`: too large a number is the nearest `long`. -/
def strtol (text : List UInt8) : Int :=
  let signed := signOf (text.dropWhile isspace)
  let n := digitsFrom 10 signed.2 0
  max (-2 ^ 63) (min (2 ^ 63 - 1) (if signed.1 then -n else n))

/-- `atoi`, which is `strtol` at `int`. -/
def atoi (text : List UInt8) : Int := TInt32.ofInt (strtol text)

/-- `tatoll`. -/
def atoll (text : List UInt8) : Int := strtol text

/-- An integer at a signed type of that many bits. -/
def signedOf (bits : Nat) (i : Int) : Int := (i + 2 ^ (bits - 1)) % 2 ^ bits - 2 ^ (bits - 1)

/-- An integer at an unsigned type of that many bits. -/
def unsignedOf (bits : Nat) (i : Int) : Nat := (i % 2 ^ bits).toNat

/-- `strcpy` into the start of a buffer. -/
def strcpy (buff text : List UInt8) : List UInt8 := text ++ 0 :: buff.drop (text.length + 1)

/-! ## The class -/

/-- `SQLite_Result`. -/
structure SQLiteResult where
  result : Option (List SQLiteCell)
  rowCount : Nat
  colCount : Nat
  currentRow : Nat
  currentCol : Nat
deriving DecidableEq, Repr

/-- A look at an element of the array that `result_` points to. -/
structure CellAccess where
  result : Option (List SQLiteCell)
  index : Nat
deriving DecidableEq, Repr

namespace CellAccess

/-- What is found there. -/
def cell (a : CellAccess) : SQLiteCell := (a.result.bind fun cells => cells[a.index]?).join

/-- There is an array, and it has the element. -/
def Inside (a : CellAccess) : Prop := ∃ cells, a.result = some cells ∧ a.index < cells.length

end CellAccess

/-- What an extraction leaves: the object, the caller's value, and the cell that was looked at. -/
structure Extracted (β : Type) where
  obj : SQLiteResult
  val : β
  access : Option CellAccess

namespace SQLiteResult

/-- The constructor. -/
def new : SQLiteResult := ⟨none, 0, 0, 0, 0⟩

/-- `free_result`. -/
def freeResult (s : SQLiteResult) : SQLiteResult := if s.result.isSome then new else s

/-- `set_result`. -/
def setResult (s : SQLiteResult) (result : List SQLiteCell) (rowCount colCount : Nat) :
    SQLiteResult :=
  let s := if s.result.isSome then s.freeResult else s
  { s with
    result := some result
    rowCount := rowCount
    colCount := colCount
    currentRow := 0
    currentCol := 0 }

/-- `fetch_next_row`. -/
def fetchNextRow (s : SQLiteResult) : Bool × SQLiteResult :=
  if s.result.isSome then
    if s.currentRow < s.rowCount then
      (true, { s with currentRow := SizeT.add s.currentRow 1, currentCol := 0 })
    else (false, s)
  else (false, s)

/-- `current_index_`. -/
def currentIndex (s : SQLiteResult) : Nat :=
  SizeT.add (s.currentRow * s.colCount % 2 ^ 64) s.currentCol

section Extractions

variable {β : Type}

/-- The value behind an extraction: a null cell leaves it. -/
def converted (convert : List UInt8 → β → β) (cell : SQLiteCell) (val : β) : β :=
  match cell with
  | some text => convert text val
  | none => val

/-- What the extractions share: `convert` says what becomes of the value where the cell is not
null. -/
def extract (convert : List UInt8 → β → β) (s : SQLiteResult) (val : β) : Extracted β :=
  if s.currentRow ≤ s.rowCount ∧ s.currentCol < s.colCount then
    let access : CellAccess := ⟨s.result, s.currentIndex⟩
    ⟨{ s with currentCol := SizeT.add s.currentCol 1 }, converted convert access.cell val,
      some access⟩
  else ⟨s, val, none⟩

/-- `operator >>` of `int8_t`. -/
def extractInt8 : SQLiteResult → Int → Extracted Int := extract fun text _ => signedOf 8 (atoi text)

/-- `operator >>` of `int16_t`. -/
def extractInt16 : SQLiteResult → Int → Extracted Int :=
  extract fun text _ => signedOf 16 (atoi text)

/-- `operator >>` of `int32_t`. -/
def extractInt32 : SQLiteResult → Int → Extracted Int :=
  extract fun text _ => signedOf 32 (atoi text)

/-- `operator >>` of `int64_t`. -/
def extractInt64 : SQLiteResult → Int → Extracted Int :=
  extract fun text _ => signedOf 64 (atoll text)

/-- `operator >>` of `uint8_t`. -/
def extractUint8 : SQLiteResult → Nat → Extracted Nat :=
  extract fun text _ => unsignedOf 8 (atoi text)

/-- `operator >>` of `uint16_t`. -/
def extractUint16 : SQLiteResult → Nat → Extracted Nat :=
  extract fun text _ => unsignedOf 16 (atoi text)

/-- `operator >>` of `uint32_t`, which reads a longer number. -/
def extractUint32 : SQLiteResult → Nat → Extracted Nat :=
  extract fun text _ => unsignedOf 32 (atoll text)

/-- `operator >>` of `uint64_t`. -/
def extractUint64 : SQLiteResult → Nat → Extracted Nat :=
  extract fun text _ => unsignedOf 64 (atoll text)

/-- `operator >>` of `float` and of `double`: `convert` is `atof`, at the type. -/
def extractFloating (convert : List UInt8 → β) : SQLiteResult → β → Extracted β :=
  extract fun text _ => convert text

/-- `operator >>` of `std::string`. -/
def extractString : SQLiteResult → List UInt8 → Extracted (List UInt8) := extract fun text _ => text

/-- `get_string` into a buffer that is not null, of `char` or of `unsigned char`. -/
def getStringInto (buffLen : Nat) : SQLiteResult → List UInt8 → Extracted (List UInt8) :=
  extract fun text buff => if buffLen > text.length then strcpy buff text else buff

/-- `get_string`. -/
def getString (s : SQLiteResult) (buff : Option (List UInt8)) (buffLen : Nat) :
    Extracted (Option (List UInt8)) :=
  match buff with
  | some buff =>
    let r := getStringInto buffLen s buff
    ⟨r.obj, some r.val, r.access⟩
  | none => ⟨s, none, none⟩

end Extractions

/-! ## Runs -/

/-- What `sqlite3_get_table` gives: the numbers of rows and columns are of type `int`. -/
structure Table where
  rows : Nat
  cols : Nat
  cells : List SQLiteCell
  rows_lt : rows < 2 ^ 31
  cols_lt : cols < 2 ^ 31
  length_cells : cells.length = (rows + 1) * cols

/-- The data cell of row `i`, from 1, and column `k`, from 1. -/
def Table.data (t : Table) (i k : Nat) : SQLiteCell := t.cells[i * t.cols + (k - 1)]?.join

/-- A call on the object. What an extraction does to the object is the same for every type. -/
inductive Call where
  | setResult (t : Table)
  | freeResult
  | fetchNextRow
  | extraction

/-- What a call answers. -/
inductive Answer where
  | done
  | fetched (ret : Bool)
  | looked (access : Option CellAccess)
deriving DecidableEq

/-- One call. -/
def step (s : SQLiteResult) : Call → SQLiteResult × Answer
  | .setResult t => (s.setResult t.cells t.rows t.cols, .done)
  | .freeResult => (s.freeResult, .done)
  | .fetchNextRow => (s.fetchNextRow.2, .fetched s.fetchNextRow.1)
  | .extraction =>
    let r := extract (fun _ (_ : Unit) => ()) s ()
    (r.obj, .looked r.access)

/-- The object after a list of calls. -/
def run (s : SQLiteResult) (calls : List Call) : SQLiteResult :=
  calls.foldl (fun s c => (s.step c).1) s

/-- What a list of calls answers. -/
def answers (s : SQLiteResult) : List Call → List Answer
  | [] => []
  | c :: calls => (s.step c).2 :: answers (s.step c).1 calls

end SQLiteResult

end MmDriver
