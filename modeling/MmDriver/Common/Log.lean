import MmDriver.Lib.Disk

/-!
# `Log_Engine`

`include/common/log.h` and `src/common/log.cpp`, with what they use of `outputstream.cpp` and
`time_ex.cpp`, on Linux. A log file carries the date in its name; one that is full is renamed.

Texts are lists of characters, the clock is read by each call, and the disk stands beside the
members. What is written is on the disk at once, as every call ends with a flush.
-/

namespace MmDriver

/-- `tm`, as `_localtime` fills it. -/
structure Tm where
  tmYear : Nat
  tmMon : Nat
  tmMday : Nat
  tmHour : Nat
  tmMin : Nat
  tmSec : Nat
deriving DecidableEq, Repr

/-- A number in a field of `width` characters: `%04d` and its like. -/
def padded (base width : Nat) (fill : Char) (n : Nat) : List Char :=
  let digits := (Nat.toDigits base n).map Char.toUpper
  List.replicate (width - digits.length) fill ++ digits

/-- `tsnprintf` into `size` characters, the last of which ends the text. -/
def tsnprintf (size : Nat) (text : List Char) : List Char := text.take (size - 1)

def maxFileNameLength : Nat := 256

def maxTimeStringLength : Nat := 32

/-- The date of `get_string_current_date`. -/
def dateText (t : Tm) : List Char :=
  padded 10 4 '0' (t.tmYear + 1900) ++ '-' :: padded 10 2 '0' (t.tmMon + 1) ++
    '-' :: padded 10 2 '0' t.tmMday

/-- `get_string_current_date`. -/
def getStringCurrentDate (t : Tm) : List Char := tsnprintf maxTimeStringLength (dateText t)

/-- `get_string_current_date_time`. -/
def getStringCurrentDateTime (t : Tm) : List Char :=
  tsnprintf maxTimeStringLength (dateText t ++ ' ' :: padded 10 2 '0' t.tmHour ++
    ':' :: padded 10 2 '0' t.tmMin ++ ':' :: padded 10 2 '0' t.tmSec)

/-- `log_mask_none`. -/
def logMaskNone : BitVec 32 := 0

/-- `log_mask_info`. -/
def logMaskInfo : BitVec 32 := 1

/-- `max_log_file_size`. -/
def maxLogFileSize : Nat := 0x40000000

/-- `max_log_file_count`. -/
def maxLogFileCount : Nat := 8

/-- `g_astTitleSet`, behind its entry for the level of no mask. -/
def titleSet : List (BitVec 32 × List Char) :=
  [(logMaskInfo, ['i', 'n', 'f', 'o']),
    (2, ['e', 'r', 'r', 'o', 'r']),
    (4, ['w', 'a', 'r', 'n', 'i', 'n', 'g']),
    (8, ['d', 'e', 't', 'a', 'i', 'l']),
    (16, ['p', 'a', 'c', 'k', 'a', 'g', 'e'])]

/-- `get_log_level_title`. -/
def getLogLevelTitle (logLevel : BitVec 32) : List Char :=
  if logLevel.toInt ≤ logMaskNone.toInt then ['d', 'e', 'f', 'a', 'u', 'l', 't']
  else (titleSet.lookup logLevel).getD ['d', 'e', 'f', 'a', 'u', 'l', 't']

/-- The file operations whose failure the engine can see. -/
inductive FileCall where
  | fopen (fileName : List Char)
  | stat (fileName : List Char)
  | remove (fileName : List Char)
  | rename (fileName newName : List Char)
deriving DecidableEq, Repr

/-- `Log_Engine`. -/
structure LogEngine where
  file : Option Nat
  fileName : List Char
  filePrefix : List Char
  logMask : BitVec 32
  fileCount : Nat
  disk : Disk (List Char) Char

namespace LogEngine

/-- The constructor. -/
def new (disk : Disk (List Char) Char) : LogEngine := ⟨none, [], [], -1, 1, disk⟩

/-- `"%s-%s.log"`. -/
def datedName (filePrefix date : List Char) : List Char :=
  tsnprintf maxFileNameLength (filePrefix ++ '-' :: date ++ ['.', 'l', 'o', 'g'])

/-- `"./log/%s-%s-%d.log"`. -/
def rotatedName (filePrefix date : List Char) (fileCount : Nat) : List Char :=
  tsnprintf maxFileNameLength (['.', '/', 'l', 'o', 'g', '/'] ++ filePrefix ++ '-' :: date ++
    '-' :: padded 10 0 '0' fileCount ++ ['.', 'l', 'o', 'g'])

section Calls

variable (fails : FileCall → Bool)

/-- `m_file.Open(m_file_name, "a+")`, which closes the file first. -/
def openFile (s : LogEngine) : Bool × LogEngine :=
  if fails (.fopen s.fileName) then (false, { s with file := none })
  else
    let opened := s.disk.openAppend s.fileName
    (true, { s with file := some opened.1, disk := opened.2 })

/-- The size of `stat(m_file_name, &file_stat)`. -/
def statSize (s : LogEngine) : Option Nat :=
  if fails (.stat s.fileName) then none else (s.disk.read s.fileName).map List.length

/-- The name of a log without one. -/
def defaultName : List Char :=
  ['s', 'e', 'r', 'v', 'e', 'r', '_', 'l', 'o', 'g', '_', 'n', 'a', 'm', 'e']

/-- `init`. -/
def init (s : LogEngine) (logMask : BitVec 32) (filePrefix : Option (List Char)) (today : Tm) :
    Bool × LogEngine :=
  let filePrefix := tsnprintf maxFileNameLength (filePrefix.getD defaultName)
  openFile fails { s with
    logMask := logMask
    filePrefix := filePrefix
    fileName := datedName filePrefix (getStringCurrentDate today) }

/-- `check_file`, where the file is full: it takes another name. -/
def rotate (s : LogEngine) (date : List Char) : Bool × LogEngine :=
  let tmpFileName := rotatedName s.filePrefix date s.fileCount
  let present := (s.disk.entry tmpFileName).isSome
  if present && fails (.remove tmpFileName) then (false, s)
  else
    let disk := if present then s.disk.remove tmpFileName else s.disk
    let disk := if fails (.rename s.fileName tmpFileName) then disk
      else disk.rename s.fileName tmpFileName
    openFile fails { s with file := none, disk := disk, fileCount := s.fileCount + 1 }

/-- `check_file`, where the size of the file is known. -/
def checkSize (s : LogEngine) (date : List Char) (size : Nat) : Bool × LogEngine :=
  if size < maxLogFileSize then (true, s) else rotate fails s date

/-- `check_file`, from the size of the file on. -/
def checkFull (s : LogEngine) (date : List Char) : Bool × LogEngine :=
  match statSize fails s with
  | some size => checkSize fails s date size
  | none =>
    -- The file is gone: it is made again.
    let again := openFile fails s
    if again.1 then
      match statSize fails again.2 with
      | some size => checkSize fails again.2 date size
      | none => (false, again.2)
    else again

/-- `check_file`, with the file open. -/
def checkDate (s : LogEngine) (date : List Char) : Bool × LogEngine :=
  let tmpFileName := datedName s.filePrefix date
  if s.fileName ≠ tmpFileName then
    openFile fails { s with file := none, fileName := tmpFileName.take maxFileNameLength }
  else if maxLogFileCount = s.fileCount then (true, s)
  else checkFull fails s date

/-- `check_file`. -/
def checkFile (s : LogEngine) (today : Tm) : Bool × LogEngine :=
  let opened := if s.file.isSome then (true, s) else openFile fails s
  if opened.1 then checkDate fails opened.2 (getStringCurrentDate today) else opened

end Calls

/-- `whether_do_log`. -/
def whetherDoLog (s : LogEngine) (logLevel : BitVec 32) : Bool := (s.logMask &&& logLevel) != 0

/-- `m_file.Print`, whose buffer takes 799 characters. -/
def print (s : LogEngine) (text : List Char) : LogEngine :=
  match s.file with
  | some i => { s with disk := s.disk.append i (tsnprintf 800 text) }
  | none => s

/-- What `log` and `dump_bin` share: their prints, where the level is logged and the file is
there. -/
def printLines (fails : FileCall → Bool) (s : LogEngine) (logLevel : BitVec 32) (today : Tm)
    (lines : List (List Char)) : Bool × LogEngine :=
  if s.whetherDoLog logLevel then
    let checked := checkFile fails s today
    if checked.1 then (true, lines.foldl print checked.2) else checked
  else (false, s)

/-- The lines of `log`: the head, and the content, formatted. -/
def logLines (logLevel : BitVec 32) (now : Tm) (content : List Char) : List (List Char) :=
  ['[' :: getStringCurrentDateTime now ++ [']', '['] ++ getLogLevelTitle logLevel ++ [']'], content]

/-- `log`. The clock is read by `check_file`, and again for the head. -/
def log (fails : FileCall → Bool) (s : LogEngine) (logLevel : BitVec 32) (today now : Tm)
    (content : List Char) : Bool × LogEngine :=
  printLines fails s logLevel today (logLines logLevel now content)

/-- `max_dump_info_size`. -/
def maxDumpInfoSize : Nat := 0x400

/-- `max_dump_line_size`. -/
def maxDumpLineSize : Nat := 0x10

/-- The turn of the loop of `dump_bin` at byte `i`. -/
def dumpByte (dateTime : List Char) (buff : List UInt8) (i : Nat) : List (List Char) :=
  let byte := padded 16 2 '0' (buff.getD i 0).toNat ++ [' ']
  if i % maxDumpLineSize = 0 then
    ['\n' :: '[' :: dateTime ++ [']', ' '] ++ padded 10 4 '0' (i / maxDumpLineSize + 1) ++
      ['>', '\t'], byte]
  else [byte]

/-- The lines of `dump_bin`. -/
def dumpLines (logLevel : BitVec 32) (now : Tm) (buff : List UInt8) : List (List Char) :=
  let dateTime := getStringCurrentDateTime now
  ('[' :: dateTime ++ [']', '['] ++ getLogLevelTitle logLevel ++
      [']', '[', 'b', 'u', 'f', 'f', 'e', 'r', ' ', 's', 'i', 'z', 'e', ':'] ++
      padded 10 4 ' ' buff.length ++ [']']) ::
    (List.range (min buff.length maxDumpInfoSize)).flatMap (dumpByte dateTime buff) ++ [['\n']]

/-- `dump_bin`. -/
def dumpBin (fails : FileCall → Bool) (s : LogEngine) (logLevel : BitVec 32) (today now : Tm)
    (buff : List UInt8) : Bool × LogEngine :=
  printLines fails s logLevel today (dumpLines logLevel now buff)

/-! ## Runs -/

/-- What is called between `init` and the destructor. -/
inductive Call where
  | log (logLevel : BitVec 32) (today now : Tm) (content : List Char)
  | dumpBin (logLevel : BitVec 32) (today now : Tm) (buff : List UInt8)
  | setLogMask (logMask : BitVec 32)

/-- One call. -/
def call (fails : FileCall → Bool) (s : LogEngine) : Call → Bool × LogEngine
  | .log logLevel today now content => s.log fails logLevel today now content
  | .dumpBin logLevel today now buff => s.dumpBin fails logLevel today now buff
  | .setLogMask logMask => (true, { s with logMask := logMask })

/-- The calls, one after the other, with no failing file operation. -/
def run (s : LogEngine) (calls : List Call) : LogEngine :=
  calls.foldl (fun s c => (s.call (fun _ => false) c).2) s

/-- The engine after its `init`, with no failing file operation. -/
def started (disk : Disk (List Char) Char) (logMask : BitVec 32) (filePrefix : Option (List Char))
    (today : Tm) : LogEngine :=
  ((new disk).init (fun _ => false) logMask filePrefix today).2

end LogEngine

end MmDriver
