import Mathlib.Data.List.TakeWhile
import Mathlib.Data.Nat.Digits.Defs
import MmDriver.Lib.ByteMem

/-!
# The MySQL handler

`include/db/mysql_handler.h`, `src/db/mysql_handler.cpp`, `include/db/mysql_result.h` and
`src/db/mysql_result.cpp`. The client library is a parameter, with the server behind it. A query
that succeeds leaves the rows the library stores for it.

The text of a statement is a string that `make_sql_string` formats into a bounded array: what does
not fit is cut off. A format of the program and the strings it is given hold no NUL.
-/

namespace MmDriver

open ByteMem

/-- A column of a row: null, or its bytes. -/
abbrev MysqlColumn := Option (List UInt8)

/-- What a query that succeeded leaves: its rows, and the two counts the library gives. -/
structure MysqlAnswer where
  rows : List (List MysqlColumn)
  fieldCount : Nat
  affectedRows : Nat

/-- The client library, over a server in state `δ`. -/
structure MysqlApi (δ : Type) where
  realEscapeString : List UInt8 → List UInt8
  realConnect : δ → δ × Bool
  ping : δ → δ × Bool
  realQuery : δ → List UInt8 → δ × Option MysqlAnswer
  errno : δ → Nat

/-- The bytes of a string literal. -/
def sqlText (s : String) : List UInt8 := s.toList.map fun c => UInt8.ofNat c.toNat

/-- `%lu` and `%d` of a number that is not negative. -/
def sqlDecimal (n : Nat) : List UInt8 :=
  if n = 0 then [48] else (Nat.digits 10 n).reverse.map fun d => UInt8.ofNat (48 + d)

/-- The string in an array of `size` bytes. -/
def cString (m : Memory) (a size : Nat) : List UInt8 := (slice m a size).takeWhile (· ≠ 0)

/-! ## `Mysql_Handler` -/

/-- `Mysql_Handler`: the string in `m_szSQL`, and whether a connection was made. -/
structure MysqlHandler where
  szSQL : List UInt8
  isConnected : Bool

namespace MysqlHandler

/-- `MAX_SQL_STRING_LENGTH`. -/
def maxSqlStringLength : Nat := 0x20000

/-- What `make_real_escape_string` leaves: the escaped text and a NUL. -/
structure EscapeResult where
  ret : Bool
  mem : Memory
  written : Nat

variable {δ : Type}

/-- `make_real_escape_string`. -/
def makeRealEscapeString (api : MysqlApi δ) (m : Memory) (dst : Nat) (src : List UInt8) :
    EscapeResult :=
  let escaped := api.realEscapeString src
  ⟨decide (0 < escaped.length), copy m dst (ofList (escaped ++ [0])) (escaped.length + 1),
    escaped.length + 1⟩

/-- `make_sql_string`, of the formatted text. -/
def makeSqlString (h : MysqlHandler) (text : List UInt8) : MysqlHandler :=
  { h with szSQL := text.take (maxSqlStringLength - 1) }

/-- What `execute` leaves, with the answer it gives to the result. -/
structure ExecuteResult (δ : Type) where
  ret : Bool
  handler : MysqlHandler
  db : δ
  answer : Option MysqlAnswer

/-- The head of `execute`: a connection that was made is pinged, or else one is made. -/
def reach (api : MysqlApi δ) (h : MysqlHandler) (db : δ) : MysqlHandler × δ × Bool :=
  if h.isConnected = false then
    let r := api.realConnect db
    ({ h with isConnected := r.2 }, r.1, r.2)
  else
    let r := api.ping db
    (h, r.1, r.2)

/-- `execute`. -/
def execute (api : MysqlApi δ) (h : MysqlHandler) (db : δ) (sql : List UInt8) : ExecuteResult δ :=
  let r := h.reach api db
  if r.2.2 = false then ⟨false, r.1, r.2.1, none⟩
  else
    let q := api.realQuery r.2.1 sql
    ⟨q.2.isSome, r.1, q.1, q.2⟩

/-- `executeSQL`, with and without a result. -/
def executeSQL (api : MysqlApi δ) (h : MysqlHandler) (db : δ) : ExecuteResult δ :=
  h.execute api db h.szSQL

end MysqlHandler

/-! ## `Mysql_Result` -/

/-- `Mysql_Result`: the rows to come, the current row and field, and how many fields there are. -/
structure MysqlResult where
  rows : List (List MysqlColumn)
  currentRow : List MysqlColumn
  currentField : Nat
  fieldCount : Nat

namespace MysqlResult

/-- A result that was set by `execute`, or not. -/
def setResult : Option MysqlAnswer → MysqlResult
  | none => ⟨[], [], 0, 0⟩
  | some answer => ⟨answer.rows, [], 0, answer.fieldCount⟩

/-- `fetch_next_row`. -/
def fetchNextRow (r : MysqlResult) : Bool × MysqlResult :=
  match r.rows with
  | [] => (false, r)
  | row :: rows => (true, { r with rows := rows, currentRow := row, currentField := 0 })

/-- The current column. -/
def column (r : MysqlResult) : MysqlColumn := (r.currentRow[r.currentField]?).join

/-- The step to the next field, which stays at the last one. -/
def nextField (r : MysqlResult) : MysqlResult :=
  { r with
    currentField := if r.currentField < r.fieldCount - 1 then r.currentField + 1
      else r.currentField }

/-- `get_string`: what it copies into the array of `buffLen` bytes, if it copies, with a NUL. -/
def getString (r : MysqlResult) (buffLen : Nat) :
    Option { bytes : List UInt8 // bytes.length < buffLen } × MysqlResult :=
  (r.column.bind fun bytes => if h : bytes.length < buffLen then some ⟨bytes, h⟩ else none,
    r.nextField)

/-- What `get_blob` leaves in the array and in the caller's length. -/
structure BlobResult where
  result : MysqlResult
  mem : Memory
  buffLen : Nat

/-- `get_blob`. -/
def getBlob (r : MysqlResult) (m : Memory) (buff buffLen : Nat) : BlobResult :=
  match r.column with
  | some bytes =>
    if bytes.length ≤ buffLen then
      ⟨r.nextField, copy m buff (ofList bytes) bytes.length, bytes.length⟩
    else ⟨r.nextField, m, 0⟩
  | none => ⟨r.nextField, m, 0⟩

end MysqlResult

end MmDriver
