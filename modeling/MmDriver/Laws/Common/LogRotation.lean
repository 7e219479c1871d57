import MmDriver.Common.Log
import Mathlib.Data.Finset.Card
import Mathlib.Data.Finset.Image
import Mathlib.Data.Finset.Range

/-!
# Which log files are rotated

A call writes to the file of its date. Where that file is full, it is rotated away first, as long
as the engine has rotations left and has the file open already: a call that opens the file of a new
date does not look at its size, and the rotations of all dates are counted together.
-/

namespace MmDriver

theorem tsnprintf_of_lt {size : Nat} {text : List Char} (h : text.length < size) :
    tsnprintf size text = text := List.take_of_length_le (Nat.le_sub_one_of_lt h)

namespace LogEngine

/-! ## Names -/

/-- The file of a date. -/
def dayName (filePrefix : List Char) (today : Tm) : List Char :=
  filePrefix ++ '-' :: getStringCurrentDate today ++ ['.', 'l', 'o', 'g']

/-- The engine's buffer holds the name. -/
def NameFits (filePrefix : List Char) (today : Tm) : Prop :=
  (dayName filePrefix today).length < maxFileNameLength

theorem NameFits.tsnprintf_eq {filePrefix : List Char} {today : Tm} (h : NameFits filePrefix today) :
    tsnprintf maxFileNameLength filePrefix = filePrefix := by
  refine tsnprintf_of_lt (Nat.lt_of_le_of_lt ?_ h)
  rw [dayName, List.append_assoc, List.length_append]
  exact Nat.le_add_right _ _

theorem NameFits.datedName_eq {filePrefix : List Char} {today : Tm}
    (h : NameFits filePrefix today) :
    datedName filePrefix (getStringCurrentDate today) = dayName filePrefix today :=
  tsnprintf_of_lt h

/-- A text that goes on as it began, six characters later. -/
theorem slash_of_shift {x : List Char} (hfirst : x[5]? = some '/')
    (hshift : ∀ i, i + 6 < 255 → x[i + 6]? = x[i]?) {k : Nat} (hk : k < 42) :
    x[5 + 6 * k]? = some '/' := by
  induction k with
  | zero => exact hfirst
  | succ k ih =>
    rw [show 5 + 6 * (k + 1) = (5 + 6 * k) + 6 by omega, hshift _ (by omega)]
    exact ih (Nat.lt_of_succ_lt hk)

/-- A rotated file does not have the name of the file it was. -/
theorem rotatedName_ne_dayName {filePrefix : List Char} {today : Tm}
    (h : NameFits filePrefix today) (n : Nat) :
    rotatedName filePrefix (getStringCurrentDate today) n ≠ dayName filePrefix today := by
  intro heq
  have hlog : dayName filePrefix today =
      (filePrefix ++ '-' :: getStringCurrentDate today) ++ ['.', 'l', 'o', 'g'] := rfl
  have hrotated : rotatedName filePrefix (getStringCurrentDate today) n =
      (['.', '/', 'l', 'o', 'g', '/'] ++ ((filePrefix ++ '-' :: getStringCurrentDate today) ++
        ('-' :: padded 10 0 '0' n ++ ['.', 'l', 'o', 'g']))).take 255 := by
    simp only [rotatedName, tsnprintf, List.append_assoc, List.cons_append]
    rfl
  rw [NameFits, hlog, List.length_append] at h
  rw [hrotated, hlog] at heq
  generalize filePrefix ++ '-' :: getStringCurrentDate today = q at h heq
  have hlength := congrArg List.length heq
  simp only [List.length_take, List.length_append, List.length_cons, List.length_nil] at hlength h
  have hq : q.length = 251 := by
    have hmax : maxFileNameLength = 256 := rfl
    omega
  -- Both names fill the buffer, so the text repeats itself up to the dot of `.log`.
  have hget : ∀ i < 255, (q ++ ['.', 'l', 'o', 'g'])[i]? = (['.', '/', 'l', 'o', 'g', '/'] ++ (q ++
      ('-' :: padded 10 0 '0' n ++ ['.', 'l', 'o', 'g'])))[i]? := by
    intro i hi
    rw [← heq, List.getElem?_take_of_lt hi]
  have hslash := slash_of_shift (k := 41) (hget 5 (by decide)) (by
    intro i hi
    rw [hget _ hi, List.getElem?_append_right (by simp)]
    simp only [List.length_cons, List.length_nil, Nat.add_sub_cancel]
    rw [List.getElem?_append_left (by omega), List.getElem?_append_left (by omega)]) (by decide)
  rw [List.getElem?_append_right (by omega), hq] at hslash
  exact absurd hslash (by decide)

/-! ## The check of the file -/

/-- The file of a date, of an engine. -/
def dayFile (s : LogEngine) (today : Tm) : List Char := dayName s.filePrefix today

/-- The name that the file of a date gets when it is rotated. -/
def rotatedFile (s : LogEngine) (today : Tm) : List Char :=
  rotatedName s.filePrefix (getStringCurrentDate today) s.fileCount

/-- The engine between two calls: the file is open, and is the one of its name. -/
structure Standing (s : LogEngine) : Prop where
  isSome : s.file.isSome = true
  entry : s.disk.entry s.fileName = s.file

/-- What every call that writes leaves. -/
structure Opens (today : Tm) (s s' : LogEngine) : Prop where
  standing : Standing s'
  filePrefix : s'.filePrefix = s.filePrefix
  fileName : s'.fileName = s.dayFile today
  logMask : s'.logMask = s.logMask

/-- A call that rotates nothing: the file of the date is longer by `text`. -/
structure Stays (today : Tm) (text : List Char) (s s' : LogEngine) : Prop
    extends Opens today s s' where
  fileCount : s'.fileCount = s.fileCount
  read : s'.disk.read (s.dayFile today) = some ((s.disk.read (s.dayFile today)).getD [] ++ text)
  frame : ∀ m, m ≠ s.dayFile today → s'.disk.read m = s.disk.read m

/-- A call that rotates: the file of the date has another name, and there is one that holds
`text` alone. -/
structure Turns (today : Tm) (text : List Char) (s s' : LogEngine) : Prop
    extends Opens today s s' where
  fileCount : s'.fileCount = s.fileCount + 1
  read : s'.disk.read (s.dayFile today) = some text
  rotated : s'.disk.read (s.rotatedFile today) = s.disk.read (s.dayFile today)
  frame : ∀ m, m ≠ s.dayFile today → m ≠ s.rotatedFile today → s'.disk.read m = s.disk.read m

/-- When the engine rotates. -/
def Rotates (today : Tm) (s : LogEngine) : Prop :=
  s.fileName = s.dayFile today ∧ s.fileCount ≠ maxLogFileCount ∧
    maxLogFileSize ≤ ((s.disk.read (s.dayFile today)).getD []).length

section Check

variable {today : Tm} {s : LogEngine}

theorem standing_openFile : Standing (openFile (fun _ => false) s).2 :=
  ⟨rfl, Disk.entry_openAppend _ _⟩

theorem stays_self (h : Standing s) (hname : s.fileName = s.dayFile today) :
    Stays today [] s s := by
  refine ⟨⟨h, rfl, hname, rfl⟩, rfl, ?_, fun _ _ => rfl⟩
  obtain ⟨i, hi⟩ := Option.isSome_iff_exists.mp h.isSome
  rw [← hname, Disk.read_of_entry (h.entry.trans hi), Option.getD_some, List.append_nil]

/-- On a new date the file of the date is opened. -/
theorem stays_openFile :
    Stays today [] s
      (openFile (fun _ => false) { s with file := none, fileName := s.dayFile today }).2 := by
  refine ⟨⟨standing_openFile, rfl, rfl, rfl⟩, rfl, ?_, ?_⟩
  · rw [List.append_nil]
    exact Disk.read_openAppend _ _
  · intro m hm
    exact Disk.read_openAppend_of_ne _ hm

/-- The rotation, on a disk without the name that the file is about to get. -/
theorem turns_openFile (hfits : NameFits s.filePrefix today) {disk : Disk (List Char) Char}
    {i : Nat} (hentry : disk.entry (s.dayFile today) = some i)
    (hread : ∀ m, m ≠ s.rotatedFile today → disk.read m = s.disk.read m) :
    Turns today [] s (openFile (fun _ => false) { s with
      file := none
      fileName := s.dayFile today
      disk := disk.rename (s.dayFile today) (s.rotatedFile today)
      fileCount := s.fileCount + 1 }).2 := by
  have hne : s.rotatedFile today ≠ s.dayFile today := rotatedName_ne_dayName hfits s.fileCount
  refine ⟨⟨standing_openFile, rfl, rfl, rfl⟩, rfl, ?_, ?_, ?_⟩
  · refine (Disk.read_openAppend _ _).trans ?_
    rw [Disk.read_rename_old hentry hne.symm, Option.getD_none]
  · refine (Disk.read_openAppend_of_ne _ hne).trans ?_
    rw [Disk.read_rename_new hentry, hread _ hne.symm]
  · intro m hday hrotated
    refine (Disk.read_openAppend_of_ne _ hday).trans ?_
    rw [Disk.read_rename_of_ne hday hrotated, hread m hrotated]

/-- `rotate` removes the file of the other name, where there is one. -/
theorem turns_rotate (h : Standing s) (hfits : NameFits s.filePrefix today)
    (hname : s.fileName = s.dayFile today) :
    (rotate (fun _ => false) s (getStringCurrentDate today)).1 = true ∧
      Turns today [] s (rotate (fun _ => false) s (getStringCurrentDate today)).2 := by
  obtain ⟨i, hi⟩ := Option.isSome_iff_exists.mp h.isSome
  have hentry : s.disk.entry (s.dayFile today) = some i := hname ▸ h.entry.trans hi
  have hne : s.rotatedFile today ≠ s.dayFile today := rotatedName_ne_dayName hfits s.fileCount
  simp only [rotate, Bool.and_false, Bool.false_eq_true, if_false, hname]
  refine ⟨rfl, ?_⟩
  split
  · exact turns_openFile hfits ((Disk.entry_remove_of_ne _ hne.symm).trans hentry)
      fun m hm => Disk.read_remove_of_ne _ hm
  · exact turns_openFile hfits hentry fun m _ => rfl

/-- The size that `stat` gives of an open file. -/
theorem statSize_of_standing (h : Standing s) (hname : s.fileName = s.dayFile today) :
    statSize (fun _ => false) s = some ((s.disk.read (s.dayFile today)).getD []).length := by
  obtain ⟨i, hi⟩ := Option.isSome_iff_exists.mp h.isSome
  have hread := Disk.read_of_entry (h.entry.trans hi)
  rw [hname] at hread
  simp only [statSize, Bool.false_eq_true, if_false, hname, hread, Option.map_some, Option.getD_some]

/-- What `check_file` leaves. -/
theorem checkFile_spec (h : Standing s) (hfits : NameFits s.filePrefix today) :
    (checkFile (fun _ => false) s today).1 = true ∧
      (Rotates today s → Turns today [] s (checkFile (fun _ => false) s today).2) ∧
      (¬Rotates today s → Stays today [] s (checkFile (fun _ => false) s today).2) := by
  have hdated : datedName s.filePrefix (getStringCurrentDate today) = s.dayFile today :=
    hfits.datedName_eq
  have htake : (s.dayFile today).take maxFileNameLength = s.dayFile today :=
    List.take_of_length_le (Nat.le_of_lt hfits)
  simp only [checkFile, h.isSome, if_true, checkDate, hdated, htake]
  split
  · next hname =>
    exact ⟨rfl, fun hrotates => absurd hrotates.1 hname, fun _ => stays_openFile⟩
  · next hsame =>
    have hname := Decidable.not_not.mp hsame
    split
    · next hcount =>
      exact ⟨rfl, fun hrotates => absurd hcount.symm hrotates.2.1, fun _ => stays_self h hname⟩
    · next hcount =>
      simp only [checkFull, statSize_of_standing h hname, checkSize]
      split
      · next hsmall =>
        exact ⟨rfl, fun hrotates => absurd hsmall (Nat.not_lt.mpr hrotates.2.2),
          fun _ => stays_self h hname⟩
      · next hfull =>
        have hrotates : Rotates today s :=
          ⟨hname, fun hc => hcount hc.symm, Nat.not_lt.mp hfull⟩
        have hturns := turns_rotate h hfits hname
        exact ⟨hturns.1, fun _ => hturns.2, fun hstays => absurd hrotates hstays⟩

end Check

/-! ## One call -/

/-- What a call's prints put into the file. -/
def printed (lines : List (List Char)) : List Char := lines.flatMap (tsnprintf 800)

/-- The level, the clock and the prints of a call that writes. -/
def Call.prints : Call → Option (BitVec 32 × Tm × List (List Char))
  | .log logLevel today now content => some (logLevel, today, logLines logLevel now content)
  | .dumpBin logLevel today now buff => some (logLevel, today, dumpLines logLevel now buff)
  | .setLogMask _ => none

theorem call_of_prints {c : Call} {logLevel : BitVec 32} {today : Tm} {lines : List (List Char)}
    (h : c.prints = some (logLevel, today, lines)) (fails : FileCall → Bool) (s : LogEngine) :
    s.call fails c = printLines fails s logLevel today lines := by
  cases c with
  | log logLevel today now content =>
    cases h
    rfl
  | dumpBin logLevel today now buff =>
    cases h
    rfl
  | setLogMask logMask => cases h

/-- The prints of a call, in an open file. -/
theorem foldl_print {s : LogEngine} (h : Standing s) (lines : List (List Char)) :
    ∃ disk, lines.foldl print s = { s with disk := disk } ∧ disk.entry = s.disk.entry ∧
      (∀ text, s.disk.read s.fileName = some text →
        disk.read s.fileName = some (text ++ printed lines)) ∧
      ∀ m, m ≠ s.fileName → disk.read m = s.disk.read m := by
  obtain ⟨i, hi⟩ := Option.isSome_iff_exists.mp h.isSome
  have hentry := h.entry.trans hi
  induction lines generalizing s with
  | nil =>
    refine ⟨s.disk, rfl, rfl, ?_, fun _ _ => rfl⟩
    intro text htext
    rw [htext, printed, List.flatMap_nil, List.append_nil]
  | cons line lines ih =>
    have hprint : s.print line = { s with disk := s.disk.append i (tsnprintf 800 line) } := by
      rw [print, hi]
    have hstanding : Standing { s with disk := s.disk.append i (tsnprintf 800 line) } :=
      ⟨h.isSome, h.entry⟩
    obtain ⟨disk, hfold, hsame, hread, hframe⟩ := ih hstanding hi hentry
    refine ⟨disk, ?_, hsame, ?_, ?_⟩
    · rw [List.foldl_cons, hprint, hfold]
    · intro text htext
      rw [Disk.read_of_entry hentry] at htext
      cases htext
      rw [hread _ (Disk.read_append hentry _), printed, printed, List.flatMap_cons,
        List.append_assoc]
    · intro m hm
      rw [hframe m hm]
      exact Disk.read_append_of_name_ne hentry hm _

section PrintLines

variable {today : Tm} {s s' : LogEngine}

theorem Opens.foldl_print (h : Opens today s s') {disk : Disk (List Char) Char}
    (hsame : disk.entry = s'.disk.entry) : Opens today s { s' with disk := disk } :=
  ⟨⟨h.standing.isSome, hsame ▸ h.standing.entry⟩, h.filePrefix, h.fileName, h.logMask⟩

theorem Stays.foldl_print (h : Stays today [] s s') (lines : List (List Char)) :
    Stays today (printed lines) s (lines.foldl print s') := by
  obtain ⟨disk, hfold, hsame, hread, hframe⟩ := LogEngine.foldl_print h.standing lines
  rw [h.fileName] at hread hframe
  rw [hfold]
  refine ⟨h.toOpens.foldl_print hsame, h.fileCount, ?_, ?_⟩
  · rw [hread _ h.read, List.append_nil]
  · intro m hm
    rw [hframe m hm, h.frame m hm]

theorem Turns.foldl_print (h : Turns today [] s s') (hfits : NameFits s.filePrefix today)
    (lines : List (List Char)) : Turns today (printed lines) s (lines.foldl print s') := by
  obtain ⟨disk, hfold, hsame, hread, hframe⟩ := LogEngine.foldl_print h.standing lines
  rw [h.fileName] at hread hframe
  rw [hfold]
  refine ⟨h.toOpens.foldl_print hsame, h.fileCount, ?_, ?_, ?_⟩
  · rw [hread _ h.read, List.nil_append]
  · exact (hframe _ (rotatedName_ne_dayName hfits s.fileCount)).trans h.rotated
  · intro m hday hrotated
    rw [hframe m hday, h.frame m hday hrotated]

/-- What a call that is logged does. -/
theorem printLines_spec (h : Standing s) (hfits : NameFits s.filePrefix today)
    {logLevel : BitVec 32} (hdo : s.whetherDoLog logLevel = true) (lines : List (List Char)) :
    (printLines (fun _ => false) s logLevel today lines).1 = true ∧
      (Rotates today s →
        Turns today (printed lines) s (printLines (fun _ => false) s logLevel today lines).2) ∧
      (¬Rotates today s →
        Stays today (printed lines) s (printLines (fun _ => false) s logLevel today lines).2) := by
  obtain ⟨hchecked, hturns, hstays⟩ := checkFile_spec h hfits
  rw [printLines, if_pos hdo, if_pos hchecked]
  exact ⟨rfl, fun hrotates => (hturns hrotates).foldl_print hfits lines,
    fun hnot => (hstays hnot).foldl_print lines⟩

end PrintLines

/-! ## Runs -/

/-- The rotations of an engine: one for each of its files but the last. -/
def Counted (s : LogEngine) : Prop := 1 ≤ s.fileCount ∧ s.fileCount ≤ maxLogFileCount

/-- What every call keeps. -/
structure Keeps (s s' : LogEngine) : Prop where
  standing : Standing s'
  filePrefix : s'.filePrefix = s.filePrefix
  counted : Counted s → Counted s'

theorem Keeps.trans {s s' s'' : LogEngine} (h : Keeps s s') (h' : Keeps s' s'') : Keeps s s'' :=
  ⟨h'.standing, h'.filePrefix.trans h.filePrefix, fun hcount => h'.counted (h.counted hcount)⟩

theorem keeps_self {s : LogEngine} (h : Standing s) : Keeps s s := ⟨h, rfl, fun hcount => hcount⟩

theorem keeps_openFile (s : LogEngine) : Keeps s (openFile (fun _ => false) s).2 :=
  ⟨standing_openFile, rfl, fun hcount => hcount⟩

theorem keeps_checkSize {s : LogEngine} (h : Standing s) (hcount : maxLogFileCount ≠ s.fileCount)
    (date : List Char) (size : Nat) : Keeps s (checkSize (fun _ => false) s date size).2 := by
  rw [checkSize]
  split
  · exact keeps_self h
  · simp only [rotate, Bool.and_false, Bool.false_eq_true, if_false]
    refine ⟨standing_openFile, rfl, fun hcounted => ⟨Nat.le_succ_of_le hcounted.1, ?_⟩⟩
    exact Nat.lt_of_le_of_ne hcounted.2 hcount.symm

theorem keeps_checkFile {s : LogEngine} (h : Standing s) (today : Tm) :
    Keeps s (checkFile (fun _ => false) s today).2 := by
  simp only [checkFile, h.isSome, if_true, checkDate]
  split
  · exact ⟨standing_openFile, rfl, fun hcounted => hcounted⟩
  · split
    · exact keeps_self h
    · next hcount =>
      simp only [checkFull]
      split
      · exact keeps_checkSize h hcount _ _
      · have hagain := keeps_openFile s
        split
        · split
          · exact hagain.trans (keeps_checkSize hagain.standing hcount _ _)
          · exact hagain
        · exact hagain

theorem keeps_call {s : LogEngine} (h : Standing s) (c : Call) :
    Keeps s (s.call (fun _ => false) c).2 := by
  cases hprints : c.prints with
  | none =>
    cases c with
    | setLogMask logMask => exact ⟨⟨h.isSome, h.entry⟩, rfl, fun hcounted => hcounted⟩
    | log logLevel today now content => cases hprints
    | dumpBin logLevel today now buff => cases hprints
  | some writing =>
    obtain ⟨logLevel, today, lines⟩ := writing
    have hchecked := keeps_checkFile h today
    simp only [call_of_prints hprints, printLines]
    split
    · split
      · obtain ⟨disk, hfold, hsame, -, -⟩ := foldl_print hchecked.standing lines
        simp only [hfold]
        exact ⟨⟨hchecked.standing.isSome, hsame ▸ hchecked.standing.entry⟩, hchecked.filePrefix,
          hchecked.counted⟩
      · exact hchecked
    · exact keeps_self h

theorem keeps_run {s : LogEngine} (h : Standing s) (calls : List Call) : Keeps s (s.run calls) := by
  induction calls generalizing s with
  | nil => exact keeps_self h
  | cons c calls ih =>
    have hcall := keeps_call h c
    exact hcall.trans (ih hcall.standing)

/-- Every state of every run. -/
theorem keeps_started (disk : Disk (List Char) Char) (logMask : BitVec 32)
    (filePrefix : Option (List Char)) (start : Tm) (calls : List Call) :
    Keeps (started disk logMask filePrefix start)
      ((started disk logMask filePrefix start).run calls) :=
  keeps_run standing_openFile calls

theorem counted_started (disk : Disk (List Char) Char) (logMask : BitVec 32)
    (filePrefix : Option (List Char)) (start : Tm) :
    Counted (started disk logMask filePrefix start) := ⟨Nat.le_refl 1, Nat.le_of_ble_eq_true rfl⟩

/-! ## The rotation of a day's file -/

/-- The files of a date: the one that is written, and the rotated ones. -/
def dayNames (filePrefix : List Char) (today : Tm) : Finset (List Char) :=
  insert (dayName filePrefix today) ((Finset.range (maxLogFileCount - 1)).image fun n =>
    rotatedName filePrefix (getStringCurrentDate today) (n + 1))

/-- How many of them there are. -/
def dayCount (filePrefix : List Char) (today : Tm) (s : LogEngine) : Nat :=
  ((dayNames filePrefix today).filter fun m => (s.disk.read m).isSome).card

/-- What the file of a date holds. -/
def dayText (filePrefix : List Char) (today : Tm) (s : LogEngine) : List Char :=
  (s.disk.read (dayName filePrefix today)).getD []

/-- What the file of a date held is in one of its rotated files. -/
def RotatedAway (filePrefix : List Char) (today : Tm) (s s' : LogEngine) : Prop :=
  ∃ m ∈ dayNames filePrefix today, m ≠ dayName filePrefix today ∧
    s'.disk.read m = some (dayText filePrefix today s)

/-- A call writes `text` to the file of its date, and a full file is rotated away first, unless the
date has all its files. -/
structure LogsRight (filePrefix : List Char) (today : Tm) (text : List Char) (s : LogEngine)
    (r : Bool × LogEngine) : Prop where
  returns : r.1 = true
  written : ∃ kept, r.2.disk.read (dayName filePrefix today) = some (kept ++ text) ∧
    (kept = dayText filePrefix today s ∨ kept = [] ∧ RotatedAway filePrefix today s r.2)
  rotated : maxLogFileSize ≤ (dayText filePrefix today s).length →
    dayCount filePrefix today s < maxLogFileCount →
    r.2.disk.read (dayName filePrefix today) = some text ∧ RotatedAway filePrefix today s r.2

/-- A full file of a date that has files left is the open one, and the engine has rotations
left. -/
def HasBudget (filePrefix : List Char) (today : Tm) (s : LogEngine) : Prop :=
  maxLogFileSize ≤ (dayText filePrefix today s).length →
    dayCount filePrefix today s < maxLogFileCount →
    s.fileName = dayName filePrefix today ∧ s.fileCount ≠ maxLogFileCount

/-- One call from a standing engine is right exactly when it has its budget. -/
theorem printLines_right_iff {s : LogEngine} {today : Tm} (h : Standing s) (hcounted : Counted s)
    (hfits : NameFits s.filePrefix today) {logLevel : BitVec 32}
    (hdo : s.whetherDoLog logLevel = true) (lines : List (List Char)) :
    LogsRight s.filePrefix today (printed lines) s
        (printLines (fun _ => false) s logLevel today lines) ↔
      HasBudget s.filePrefix today s := by
  obtain ⟨hreturns, hturns, hstays⟩ := printLines_spec h hfits hdo lines
  constructor
  · intro hright hfull hcount
    by_cases hrotates : Rotates today s
    · exact ⟨hrotates.1, hrotates.2.1⟩
    · -- Nothing is rotated, so the full file is still in front of the text.
      have hread := (hstays hrotates).read.symm.trans (hright.rotated hfull hcount).1
      have hlength := congrArg List.length (Option.some.inj hread)
      rw [List.length_append] at hlength
      have hempty : ((s.disk.read (s.dayFile today)).getD []).length = 0 :=
        Nat.add_eq_right.mp hlength
      rw [dayText, ← dayFile, hempty] at hfull
      exact absurd hfull (by decide)
  · intro hbudget
    by_cases hrotates : Rotates today s
    · have hdone := hturns hrotates
      have haway : RotatedAway s.filePrefix today s
          (printLines (fun _ => false) s logLevel today lines).2 := by
        refine ⟨s.rotatedFile today, ?_, rotatedName_ne_dayName hfits s.fileCount, ?_⟩
        · refine Finset.mem_insert_of_mem (Finset.mem_image.mpr ⟨s.fileCount - 1, ?_, ?_⟩)
          · have hlt := Nat.lt_of_le_of_ne hcounted.2 hrotates.2.1
            exact Finset.mem_range.mpr (Nat.sub_lt_sub_right hcounted.1 hlt)
          · rw [Nat.sub_add_cancel hcounted.1, rotatedFile]
        · rw [hdone.rotated, dayText, ← dayFile]
          have hfull := hrotates.2.2
          cases hday : s.disk.read (s.dayFile today) with
          | none =>
            rw [hday, Option.getD_none] at hfull
            exact absurd hfull (by decide)
          | some text => rfl
      exact ⟨hreturns, ⟨[], hdone.read, .inr ⟨rfl, haway⟩⟩, fun _ _ => ⟨hdone.read, haway⟩⟩
    · have hdone := hstays hrotates
      refine ⟨hreturns, ⟨_, hdone.read, .inl rfl⟩, ?_⟩
      intro hfull hcount
      have hopen := hbudget hfull hcount
      exact absurd ⟨hopen.1, hopen.2, hfull⟩ hrotates

/-- **Which full files are rotated.** Each call of a run writes to the file of its date, rotated
away first if it is full and the date has files left, exactly when such a file is the open one and
the engine has rotations left. -/
theorem logs_right_iff (disk : Disk (List Char) Char) (logMask : BitVec 32)
    (filePrefix : Option (List Char)) (start : Tm) (calls : List Call) {c : Call}
    {logLevel : BitVec 32} {today : Tm} {lines : List (List Char)}
    (hprints : c.prints = some (logLevel, today, lines))
    (hdo : ((started disk logMask filePrefix start).run calls).whetherDoLog logLevel = true)
    (hfits : NameFits (filePrefix.getD defaultName) today) :
    LogsRight (filePrefix.getD defaultName) today (printed lines)
        ((started disk logMask filePrefix start).run calls)
        (((started disk logMask filePrefix start).run calls).call (fun _ => false) c) ↔
      HasBudget (filePrefix.getD defaultName) today
        ((started disk logMask filePrefix start).run calls) := by
  have hkeeps := keeps_started disk logMask filePrefix start calls
  have hcounted := hkeeps.counted (counted_started disk logMask filePrefix start)
  have hfilePrefix : ((started disk logMask filePrefix start).run calls).filePrefix =
      filePrefix.getD defaultName := hkeeps.filePrefix.trans hfits.tsnprintf_eq
  rw [call_of_prints hprints, ← hfilePrefix]
  rw [← hfilePrefix] at hfits
  exact printLines_right_iff hkeeps.standing hcounted hfits hdo lines

/-! ## Two days

On the first day a file is filled and rotated until no rotation is left. On the second day nothing
has been rotated, and its full file stays. -/

def firstDay : Tm := ⟨124, 0, 1, 0, 0, 0⟩

def secondDay : Tm := ⟨124, 0, 2, 0, 0, 0⟩

/-- A call that writes 128 characters. -/
def note (today : Tm) : Call := .log logMaskInfo today today (List.replicate 101 'x')

def noteLines (today : Tm) : List (List Char) := logLines logMaskInfo today (List.replicate 101 'x')

/-- The engine in the middle of a day, with a file of `size` characters. -/
structure Midday (today : Tm) (count size : Nat) (s : LogEngine) : Prop where
  standing : Standing s
  filePrefix : s.filePrefix = ['n']
  fileName : s.fileName = dayName ['n'] today
  logMask : s.logMask = -1
  fileCount : s.fileCount = count
  length : (dayText ['n'] today s).length = size

section Midday

variable {today : Tm} {count size : Nat} {s : LogEngine}

/-- A call when the file has room, or no rotation is left. -/
theorem Midday.grows (h : Midday today count size s) (hfits : NameFits ['n'] today)
    (hlength : (printed (noteLines today)).length = 128)
    (hroom : count = maxLogFileCount ∨ size < maxLogFileSize) :
    Midday today count (size + 128) (s.call (fun _ => false) (note today)).2 ∧
      ∀ m, m ≠ dayName ['n'] today →
        (s.call (fun _ => false) (note today)).2.disk.read m = s.disk.read m := by
  have hfilePrefix := h.filePrefix
  have hdo : s.whetherDoLog logMaskInfo = true := by
    rw [whetherDoLog, h.logMask]
    rfl
  have hnot : ¬Rotates today s := by
    rintro ⟨-, hcount, hfull⟩
    rcases hroom with hlast | hsmall
    · exact hcount (h.fileCount.trans hlast)
    · have hsize := h.length
      rw [dayText, ← hfilePrefix, ← dayFile] at hsize
      exact Nat.not_lt.mpr hfull (hsize ▸ hsmall)
  have hstays := (printLines_spec h.standing (hfilePrefix ▸ hfits) hdo (noteLines today)).2.2 hnot
  have hday : s.dayFile today = dayName ['n'] today := by rw [dayFile, hfilePrefix]
  rw [call_of_prints (c := note today) rfl]
  refine ⟨⟨hstays.standing, hstays.filePrefix.trans hfilePrefix, hstays.fileName.trans hday,
    hstays.logMask.trans h.logMask, hstays.fileCount.trans h.fileCount, ?_⟩, ?_⟩
  · have hread := hstays.read
    rw [hday] at hread
    rw [dayText, ← noteLines, hread, Option.getD_some, List.length_append, ← dayText, h.length,
      hlength]
  · intro m hm
    exact hstays.frame m (hday ▸ hm)

/-- A call when the file is full, with a rotation left. -/
theorem Midday.turns (h : Midday today count maxLogFileSize s) (hfits : NameFits ['n'] today)
    (hlength : (printed (noteLines today)).length = 128) (hleft : count ≠ maxLogFileCount) :
    Midday today (count + 1) 128 (s.call (fun _ => false) (note today)).2 ∧
      ∀ m, m ≠ dayName ['n'] today → m ≠ rotatedName ['n'] (getStringCurrentDate today) count →
        (s.call (fun _ => false) (note today)).2.disk.read m = s.disk.read m := by
  have hfilePrefix := h.filePrefix
  have hday : s.dayFile today = dayName ['n'] today := by rw [dayFile, hfilePrefix]
  have hdo : s.whetherDoLog logMaskInfo = true := by
    rw [whetherDoLog, h.logMask]
    rfl
  have hrotates : Rotates today s := by
    refine ⟨h.fileName.trans hday.symm, fun hcount => hleft (h.fileCount.symm.trans hcount), ?_⟩
    rw [hday, ← dayText, h.length]
  have hturns := (printLines_spec h.standing (hfilePrefix ▸ hfits) hdo (noteLines today)).2.1 hrotates
  rw [call_of_prints (c := note today) rfl]
  refine ⟨⟨hturns.standing, hturns.filePrefix.trans hfilePrefix, hturns.fileName.trans hday,
    hturns.logMask.trans h.logMask, hturns.fileCount.trans (congrArg (· + 1) h.fileCount), ?_⟩, ?_⟩
  · have hread := hturns.read
    rw [hday] at hread
    rw [dayText, ← noteLines, hread, Option.getD_some, hlength]
  · intro m hm hrotated
    refine hturns.frame m (hday ▸ hm) ?_
    rw [rotatedFile, hfilePrefix, h.fileCount]
    exact hrotated

/-- The first call of a date: the file is made, and no other one changes. -/
theorem Standing.firstCall (h : Standing s) (hfilePrefix : s.filePrefix = ['n'])
    (hmask : s.logMask = -1) (hfits : NameFits ['n'] today)
    (hlength : (printed (noteLines today)).length = 128)
    (hfresh : (s.disk.read (dayName ['n'] today)).getD [] = []) :
    Midday today s.fileCount 128 (s.call (fun _ => false) (note today)).2 ∧
      ∀ m, m ≠ dayName ['n'] today →
        (s.call (fun _ => false) (note today)).2.disk.read m = s.disk.read m := by
  have hday : s.dayFile today = dayName ['n'] today := by rw [dayFile, hfilePrefix]
  have hdo : s.whetherDoLog logMaskInfo = true := by
    rw [whetherDoLog, hmask]
    rfl
  have hnot : ¬Rotates today s := by
    rintro ⟨-, -, hfull⟩
    rw [hday, hfresh] at hfull
    exact absurd hfull (by decide)
  have hstays := (printLines_spec h (hfilePrefix ▸ hfits) hdo (noteLines today)).2.2 hnot
  rw [call_of_prints (c := note today) rfl]
  refine ⟨⟨hstays.standing, hstays.filePrefix.trans hfilePrefix, hstays.fileName.trans hday,
    hstays.logMask.trans hmask, hstays.fileCount, ?_⟩, fun m hm => hstays.frame m (hday ▸ hm)⟩
  have hread := hstays.read
  rw [hday, hfresh, List.nil_append] at hread
  rw [dayText, ← noteLines, hread, Option.getD_some, hlength]

/-- Calls while the file has room, or no rotation is left. -/
theorem Midday.grows_run (h : Midday today count size s) (hfits : NameFits ['n'] today)
    (hlength : (printed (noteLines today)).length = 128) (k : Nat)
    (hroom : count = maxLogFileCount ∨ size + k * 128 ≤ maxLogFileSize) :
    Midday today count (size + k * 128) (s.run (List.replicate k (note today))) ∧
      ∀ m, m ≠ dayName ['n'] today →
        (s.run (List.replicate k (note today))).disk.read m = s.disk.read m := by
  induction k generalizing s size with
  | zero =>
    rw [Nat.zero_mul, Nat.add_zero]
    exact ⟨h, fun _ _ => rfl⟩
  | succ k ih =>
    have hone : count = maxLogFileCount ∨ size < maxLogFileSize := hroom.imp_right (by omega)
    have hrest : count = maxLogFileCount ∨ size + 128 + k * 128 ≤ maxLogFileSize :=
      hroom.imp_right (by omega)
    obtain ⟨hcall, hframe⟩ := h.grows hfits hlength hone
    obtain ⟨hrun, hframes⟩ := ih hcall hrest
    rw [show size + (k + 1) * 128 = size + 128 + k * 128 by omega]
    exact ⟨hrun, fun m hm => (hframes m hm).trans (hframe m hm)⟩

end Midday

theorem run_cons (s : LogEngine) (c : Call) (calls : List Call) :
    s.run (c :: calls) = (s.call (fun _ => false) c).2.run calls := rfl

theorem run_append (s : LogEngine) (calls rest : List Call) :
    s.run (calls ++ rest) = (s.run calls).run rest := List.foldl_append

/-- No file of the second day. -/
def Fresh (s : LogEngine) : Prop := ∀ m ∈ dayNames ['n'] secondDay, s.disk.read m = none

theorem firstDay_fits : NameFits ['n'] firstDay := by
  rw [NameFits]
  decide

theorem secondDay_fits : NameFits ['n'] secondDay := by
  rw [NameFits]
  decide

/-- The head has 27 characters, and the content 101. -/
theorem noteLines_length (today : Tm) (hhead : (getStringCurrentDateTime today).length = 19) :
    (printed (noteLines today)).length = 128 := by
  have htitle : (getLogLevelTitle logMaskInfo).length = 4 := by decide
  simp [printed, noteLines, logLines, tsnprintf, hhead, htitle]

theorem firstDay_length : (printed (noteLines firstDay)).length = 128 :=
  noteLines_length firstDay (by decide)

theorem secondDay_length : (printed (noteLines secondDay)).length = 128 :=
  noteLines_length secondDay (by decide)

/-- The two days have no name in common. -/
theorem secondDay_names {m : List Char} (hm : m ∈ dayNames ['n'] secondDay) :
    m ≠ dayName ['n'] firstDay ∧
      ∀ count, m ≠ rotatedName ['n'] (getStringCurrentDate firstDay) count := by
  rcases Finset.mem_insert.mp hm with rfl | himage
  · exact ⟨fun h => absurd (congrArg (fun l => l[11]?) h) (by decide),
      fun count h => absurd (congrArg (fun l => l[0]?) h) (fun hc => by cases hc)⟩
  · obtain ⟨n, -, rfl⟩ := Finset.mem_image.mp himage
    refine ⟨fun h => absurd (congrArg (fun l => l[0]?) h) (fun hc => by cases hc), ?_⟩
    intro count h
    have hdigit : (some '2' : Option Char) = some '1' := congrArg (fun l => l[17]?) h
    exact absurd hdigit (by decide)

section FirstDay

variable {count k : Nat} {s : LogEngine}

/-- The first day's file is filled and rotated once. -/
theorem Midday.cycle (h : Midday firstDay count 128 s) (hfresh : Fresh s)
    (hleft : count ≠ maxLogFileCount) (hfill : 128 + k * 128 = maxLogFileSize) :
    Midday firstDay (count + 1) 128 (s.run (List.replicate (k + 1) (note firstDay))) ∧
      Fresh (s.run (List.replicate (k + 1) (note firstDay))) := by
  obtain ⟨hgrown, hgrow⟩ := h.grows_run firstDay_fits firstDay_length k (.inr (Nat.le_of_eq hfill))
  rw [hfill] at hgrown
  obtain ⟨hturned, hturn⟩ := hgrown.turns firstDay_fits firstDay_length hleft
  rw [List.replicate_succ', run_append]
  refine ⟨hturned, ?_⟩
  intro m hm
  obtain ⟨hday, hrotated⟩ := secondDay_names hm
  exact ((hturn m hday (hrotated count)).trans (hgrow m hday)).trans (hfresh m hm)

/-- As often as there are rotations left. -/
theorem Midday.cycles (h : Midday firstDay count 128 s) (hfresh : Fresh s)
    (hfill : 128 + k * 128 = maxLogFileSize) (j : Nat) (hleft : count + j ≤ maxLogFileCount) :
    Midday firstDay (count + j) 128 (s.run (List.replicate (j * (k + 1)) (note firstDay))) ∧
      Fresh (s.run (List.replicate (j * (k + 1)) (note firstDay))) := by
  induction j with
  | zero =>
    rw [Nat.zero_mul]
    exact ⟨h, hfresh⟩
  | succ j ih =>
    obtain ⟨hday, hnone⟩ := ih (Nat.le_of_succ_le hleft)
    rw [Nat.succ_mul, List.replicate_add, run_append]
    exact hday.cycle hnone (Nat.ne_of_lt hleft) hfill

end FirstDay

/-- A day without rotated files. -/
theorem dayCount_le_one {filePrefix : List Char} {today : Tm} {s : LogEngine}
    (hnone : ∀ m ∈ dayNames filePrefix today, m ≠ dayName filePrefix today → s.disk.read m = none) :
    dayCount filePrefix today s ≤ 1 := by
  rw [dayCount, ← Finset.card_singleton (dayName filePrefix today)]
  refine Finset.card_le_card fun m hm => ?_
  obtain ⟨hname, hsome⟩ := Finset.mem_filter.mp hm
  by_cases hday : m = dayName filePrefix today
  · exact Finset.mem_singleton.mpr hday
  · rw [hnone m hname hday] at hsome
    cases hsome

/-- An engine on an empty disk. -/
def onEmptyDisk : LogEngine := started .empty (-1) (some ['n']) firstDay

theorem onEmptyDisk_read {m : List Char} (hm : m ≠ dayName ['n'] firstDay) :
    onEmptyDisk.disk.read m = none := Disk.read_openAppend_of_ne _ hm

/-- Its first call. -/
theorem onEmptyDisk_call :
    Midday firstDay 1 128 (onEmptyDisk.call (fun _ => false) (note firstDay)).2 ∧
      ∀ m, m ≠ dayName ['n'] firstDay →
        (onEmptyDisk.call (fun _ => false) (note firstDay)).2.disk.read m = none := by
  have hstanding : Standing onEmptyDisk := standing_openFile
  have hread : onEmptyDisk.disk.read (dayName ['n'] firstDay) = some [] := Disk.read_openAppend ..
  obtain ⟨hfirst, hone⟩ := hstanding.firstCall rfl rfl firstDay_fits firstDay_length
    (by rw [hread, Option.getD_some])
  exact ⟨hfirst, fun m hm => (hone m hm).trans (onEmptyDisk_read hm)⟩

/-- The first day's file is filled. -/
theorem firstDay_full {fill : Nat} (hfill : 128 + fill * 128 = maxLogFileSize) :
    Midday firstDay 1 maxLogFileSize
        (onEmptyDisk.run (note firstDay :: List.replicate fill (note firstDay))) ∧
      dayCount ['n'] firstDay
        (onEmptyDisk.run (note firstDay :: List.replicate fill (note firstDay))) ≤ 1 := by
  obtain ⟨hfirst, hnone⟩ := onEmptyDisk_call
  obtain ⟨hgrown, hgrow⟩ := hfirst.grows_run firstDay_fits firstDay_length fill
    (.inr (Nat.le_of_eq hfill))
  rw [hfill] at hgrown
  rw [run_cons]
  exact ⟨hgrown, dayCount_le_one fun m _ hm => (hgrow m hm).trans (hnone m hm)⟩

/-- The call behind it has the budget to rotate it. -/
theorem logs_right_iff_full : ∃ calls,
    maxLogFileSize ≤ (dayText ['n'] firstDay (onEmptyDisk.run calls)).length ∧
      dayCount ['n'] firstDay (onEmptyDisk.run calls) < maxLogFileCount ∧
      LogsRight ['n'] firstDay (printed (noteLines firstDay)) (onEmptyDisk.run calls)
        ((onEmptyDisk.run calls).call (fun _ => false) (note firstDay)) := by
  obtain ⟨fill, hfill⟩ : ∃ fill, 128 + fill * 128 = maxLogFileSize :=
    ⟨8388607, by simp [maxLogFileSize]⟩
  obtain ⟨hfull, hcount⟩ := firstDay_full hfill
  generalize note firstDay :: List.replicate fill (note firstDay) = calls at hfull hcount
  have hdo : (onEmptyDisk.run calls).whetherDoLog logMaskInfo = true := by
    rw [whetherDoLog, hfull.logMask]
    rfl
  have hbudget : HasBudget ['n'] firstDay (onEmptyDisk.run calls) := fun _ _ =>
    ⟨hfull.fileName, hfull.fileCount ▸ (by decide : 1 ≠ maxLogFileCount)⟩
  exact ⟨calls, Nat.le_of_eq hfull.length.symm, Nat.lt_of_le_of_lt hcount (by decide),
    (logs_right_iff .empty (-1) (some ['n']) firstDay calls (c := note firstDay) rfl hdo
      firstDay_fits).mpr hbudget⟩

/-- The second day's file is filled. -/
theorem Midday.secondDay_full {count k : Nat} {s : LogEngine} (h : Midday firstDay count 128 s)
    (hfresh : Fresh s) (hlast : count = maxLogFileCount)
    (hfill : 128 + k * 128 = maxLogFileSize) :
    Midday secondDay count maxLogFileSize (s.run (List.replicate (k + 1) (note secondDay))) ∧
      dayCount ['n'] secondDay (s.run (List.replicate (k + 1) (note secondDay))) ≤ 1 := by
  have hnone : (s.disk.read (dayName ['n'] secondDay)).getD [] = [] := by
    rw [hfresh _ (Finset.mem_insert_self ..), Option.getD_none]
  obtain ⟨hfirst, hone⟩ := h.standing.firstCall h.filePrefix h.logMask secondDay_fits
    secondDay_length hnone
  rw [h.fileCount] at hfirst
  obtain ⟨hgrown, hgrow⟩ := hfirst.grows_run secondDay_fits secondDay_length k (.inl hlast)
  rw [hfill] at hgrown
  have hrun : s.run (List.replicate (k + 1) (note secondDay)) =
      ((s.call (fun _ => false) (note secondDay)).2).run (List.replicate k (note secondDay)) := by
    rw [List.replicate_succ, run_cons]
  rw [hrun]
  refine ⟨hgrown, dayCount_le_one fun m hname hday => ?_⟩
  rw [hgrow m hday, hone m hday, hfresh m hname]

/-- The calls of both days, up to the second day's full file. -/
def twoDays (fill : Nat) : List Call :=
  note firstDay :: List.replicate (7 * (fill + 1)) (note firstDay) ++
    List.replicate (fill + 1) (note secondDay)

theorem twoDays_full {fill : Nat} (hfill : 128 + fill * 128 = maxLogFileSize) :
    Midday secondDay maxLogFileCount maxLogFileSize (onEmptyDisk.run (twoDays fill)) ∧
      dayCount ['n'] secondDay (onEmptyDisk.run (twoDays fill)) ≤ 1 := by
  obtain ⟨hfirst, hone⟩ := onEmptyDisk_call
  have hfresh := fun m hm => hone m (secondDay_names hm).1
  obtain ⟨hday, hnone⟩ := hfirst.cycles hfresh hfill 7 (Nat.le_refl _)
  have hrun : onEmptyDisk.run (twoDays fill) =
      ((onEmptyDisk.call (fun _ => false) (note firstDay)).2.run
        (List.replicate (7 * (fill + 1)) (note firstDay))).run
          (List.replicate (fill + 1) (note secondDay)) := by
    rw [twoDays, run_append, run_cons]
  rw [hrun]
  exact hday.secondDay_full hnone rfl hfill

/-- Without a rotation left, a full file stays. -/
theorem Midday.not_right {today : Tm} {s : LogEngine}
    (h : Midday today maxLogFileCount maxLogFileSize s) (hfits : NameFits ['n'] today)
    (hcount : dayCount ['n'] today s ≤ 1) :
    ¬LogsRight ['n'] today (printed (noteLines today)) s
      (s.call (fun _ => false) (note today)) := by
  have hdo : s.whetherDoLog logMaskInfo = true := by
    rw [whetherDoLog, h.logMask]
    rfl
  have hcounted : Counted s := by
    rw [Counted, h.fileCount]
    exact ⟨by decide, Nat.le_refl _⟩
  have hiff := printLines_right_iff h.standing hcounted (h.filePrefix ▸ hfits) hdo
    (noteLines today)
  rw [h.filePrefix] at hiff
  rw [call_of_prints (c := note today) rfl]
  intro hright
  have hbudget := hiff.mp hright
  rw [HasBudget, h.length] at hbudget
  exact (hbudget (Nat.le_refl _) (Nat.lt_of_le_of_lt hcount (by decide))).2 h.fileCount

/-- The second day's first full file is not rotated. -/
theorem full_file_stays_on_second_day :
    ¬LogsRight ['n'] secondDay (printed (noteLines secondDay))
      (onEmptyDisk.run (twoDays 8388607))
      ((onEmptyDisk.run (twoDays 8388607)).call (fun _ => false) (note secondDay)) := by
  have hfill : 128 + 8388607 * 128 = maxLogFileSize := by simp [maxLogFileSize]
  obtain ⟨hfull, hcount⟩ := twoDays_full hfill
  exact hfull.not_right secondDay_fits hcount

end LogEngine

end MmDriver
