import MmDriver.Common.CpuMemStat

/-!
# Which fields `ReBuildCpu` reads

The scan counts every whitespace of the text from 0 on and reads a number behind the ones it counts
as 13 to 16 (`scan_time`). The field behind whitespace `k` is field `k + 2`, less the whitespaces
that the process's name has in it, or the state, or a part of the name. So the four numbers are those
of fields 14 to 17 when the name has exactly one whitespace in it, and otherwise only where the
numbers happen to agree (`reBuildCpu_reads_iff`).
-/

namespace MmDriver

open Throwing

namespace CpuMemStat

/-! ## The scan as one pass -/

/-- The member that is read at `STAT_UTIME + i`. -/
def time (s : CpuMemStat) : Nat → Nat
  | 0 => s.utime
  | 1 => s.ktime
  | 2 => s.wcutime
  | _ => s.wcktime

theorem setField_time {i : Nat} (hi : i < 4) (s : CpuMemStat) (k : Nat) (p : List UInt8) :
    (s.setField k p).time i = if k = 13 + i then strtoul p else s.time i := by
  have hcases : i = 0 ∨ i = 1 ∨ i = 2 ∨ i = 3 := by omega
  unfold setField statUtime statKtime statWcutime statWcktime
  rcases hcases with rfl | rfl | rfl | rfl <;> split_ifs <;> first | rfl | omega

theorem setField_of_le {k : Nat} (hk : statCount ≤ k) (s : CpuMemStat) (p : List UInt8) :
    s.setField k p = s := by
  unfold statCount at hk
  unfold setField statUtime statKtime statWcutime statWcktime
  rw [if_neg (by omega), if_neg (by omega), if_neg (by omega), if_neg (by omega)]

/-- Every whitespace of a text, in order. -/
def readAll : List UInt8 → Nat → CpuMemStat → CpuMemStat
  | [], _, s => s
  | c :: rest, k, s =>
    if isspace c then readAll rest (k + 1) (s.setField k (c :: rest)) else readAll rest k s

theorem readAll_of_le {rest : List UInt8} {k : Nat} (hk : statCount ≤ k) (s : CpuMemStat) :
    readAll rest k s = s := by
  induction rest generalizing k s with
  | nil => rfl
  | cons c rest ih =>
    rw [readAll, setField_of_le hk, ih (Nat.le_succ_of_le hk), ih hk, ite_self]

theorem readAll_spaces (rest : List UInt8) (k : Nat) (s : CpuMemStat) :
    readAll (spaces rest k s).rest (spaces rest k s).nFieldIndex (spaces rest k s).stat =
      readAll rest k s := by
  induction rest generalizing k s with
  | nil => rfl
  | cons c rest ih =>
    rw [spaces]
    split
    · next hspace =>
      rw [ih, readAll, if_pos hspace]
    · rfl

theorem readAll_word (rest : List UInt8) (k : Nat) (s : CpuMemStat) :
    readAll (word rest) k s = readAll rest k s := by
  induction rest with
  | nil => rfl
  | cons c rest ih =>
    by_cases hspace : isspace c = true
    · rw [word, List.dropWhile_cons_of_neg (by simpa using hspace)]
    · rw [word, List.dropWhile_cons_of_pos (by simpa using hspace), ← word, ih, readAll,
        if_neg hspace]

/-- The scan visits every whitespace until it has counted `STAT_COUNT` of them. -/
theorem scan_eq (rest : List UInt8) (k : Nat) (s : CpuMemStat) :
    scan rest k s = readAll rest k s := by
  induction rest, k, s using scan.induct with
  | case1 rest k s hturn r ih => rw [scan, if_pos hturn, ih, readAll_word, readAll_spaces]
  | case2 rest k s hend =>
    rw [scan, if_neg hend]
    rcases not_and_or.mp hend with hrest | hk
    · rw [not_not.mp hrest, readAll]
    · rw [readAll_of_le (Nat.le_of_not_lt hk)]

/-- The text from whitespace `k` on. -/
def fromSpace : List UInt8 → Nat → Option (List UInt8)
  | [], _ => none
  | c :: rest, k =>
    if isspace c then if k = 0 then some (c :: rest) else fromSpace rest (k - 1)
    else fromSpace rest k

/-- Each time is read at its own whitespace, and only there. -/
theorem readAll_time {i : Nat} (hi : i < 4) (rest : List UInt8) (k : Nat) (s : CpuMemStat) :
    (readAll rest k s).time i =
      if k ≤ 13 + i then ((fromSpace rest (13 + i - k)).map strtoul).getD (s.time i)
      else s.time i := by
  induction rest generalizing k s with
  | nil => rw [readAll, fromSpace, Option.map_none, Option.getD_none, ite_self]
  | cons c rest ih =>
    rw [readAll, fromSpace]
    by_cases hspace : isspace c = true
    · rw [if_pos hspace, if_pos hspace, ih, setField_time hi]
      rcases Nat.lt_trichotomy k (13 + i) with hlt | rfl | hgt
      · rw [if_pos (show k + 1 ≤ 13 + i from hlt), if_pos (Nat.le_of_lt hlt),
          if_neg (Nat.ne_of_lt hlt), if_neg (Nat.sub_ne_zero_of_lt hlt), Nat.sub_sub]
      · rw [if_neg (Nat.not_succ_le_self _), if_pos rfl, if_pos (Nat.le_refl _), Nat.sub_self,
          if_pos rfl]
        rfl
      · rw [if_neg (by omega), if_neg (Nat.ne_of_gt hgt), if_neg (by omega)]
    · rw [if_neg hspace, if_neg hspace, ih]

/-- **What the scan reads**: the number behind the whitespace of that count, if there is one. -/
theorem scan_time {i : Nat} (hi : i < 4) (text : List UInt8) (s : CpuMemStat) :
    (scan text 0 s).time i = ((fromSpace text (13 + i)).map strtoul).getD (s.time i) := by
  rw [scan_eq, readAll_time hi, if_pos (Nat.zero_le _), Nat.sub_zero]

/-! ## Numbers in a text -/

theorem digitsFrom_append (base : Nat) (ds : List UInt8) {c : UInt8} (hc : digitValue c = none)
    (rest : List UInt8) (value : Nat) :
    digitsFrom base (ds ++ c :: rest) value = digitsFrom base ds value := by
  induction ds generalizing value with
  | nil => simp [digitsFrom, hc]
  | cons d ds ih =>
    rw [List.cons_append, digitsFrom, digitsFrom]
    split
    · rw [ih]
    · rfl

/-- A character that ends a number: no digit, no sign, and not the letter of a base. -/
structure EndsNumber (c : UInt8) : Prop where
  digit : digitValue c = none
  sign : c ≠ 45 ∧ c ≠ 43
  base : ¬(c = 120 ∨ c = 88)

theorem baseOf_of_ne {d : UInt8} (h : d ≠ 48) (s : List UInt8) : baseOf (d :: s) = (10, d :: s) := by
  rw [baseOf]
  all_goals simp [h]

section Ends

variable {c : UInt8} (hc : EndsNumber c)

include hc

theorem baseOf_append (p rest : List UInt8) :
    baseOf (p ++ c :: rest) = ((baseOf p).1, (baseOf p).2 ++ c :: rest) := by
  have hzero : c ≠ 48 := by
    rintro rfl
    cases hc.digit
  cases p with
  | nil => exact baseOf_of_ne hzero rest
  | cons a p =>
    by_cases ha : a = 48
    · subst ha
      match p with
      | [] =>
        cases rest with
        | nil => rfl
        | cons d rest => simp [baseOf, hc.base]
      | [b] => simp [baseOf, hc.digit]
      | b :: d :: p =>
        simp only [List.cons_append, baseOf]
        split <;> rfl
    · rw [List.cons_append, baseOf_of_ne ha, baseOf_of_ne ha]
      rfl

theorem signOf_append (p rest : List UInt8) :
    signOf (p ++ c :: rest) = ((signOf p).1, (signOf p).2 ++ c :: rest) := by
  cases p with
  | nil => simp [signOf, hc.sign.1, hc.sign.2]
  | cons a p =>
    by_cases hminus : a = 45
    · subst hminus
      rfl
    · by_cases hplus : a = 43
      · subst hplus
        rfl
      · simp [signOf, hminus, hplus]

/-- What stands behind such a character is not read. -/
theorem strtoul_append {p : List UInt8} (rest : List UInt8)
    (hspace : isspace c = false ∨ ∃ d ∈ p, isspace d = false) :
    strtoul (p ++ c :: rest) = strtoul p := by
  have hdrop : (p ++ c :: rest).dropWhile isspace = p.dropWhile isspace ++ c :: rest := by
    induction p with
    | nil =>
      have hnot := hspace.resolve_right fun h => by simp at h
      rw [List.nil_append, List.dropWhile_cons_of_neg (by simp [hnot])]
      rfl
    | cons a p ih =>
      by_cases ha : isspace a = true
      · rw [List.cons_append, List.dropWhile_cons_of_pos ha, List.dropWhile_cons_of_pos ha]
        refine ih (hspace.imp_right fun ⟨d, hd, hnot⟩ => ⟨d, ?_, hnot⟩)
        refine (List.mem_cons.mp hd).resolve_left fun hsame => ?_
        rw [hsame, ha] at hnot
        cases hnot
      · rw [List.cons_append, List.dropWhile_cons_of_neg ha, List.dropWhile_cons_of_neg ha]
        rfl
  rw [strtoul, strtoul, hdrop, signOf_append hc]
  dsimp only
  rw [baseOf_append hc]
  dsimp only
  rw [digitsFrom_append _ _ hc.digit]

end Ends

end CpuMemStat

/-- A field of decimal digits, with a sign or without: no zero stands in front, and the number is
one of 64 bits. -/
structure DecimalField where
  neg : Bool
  digits : List UInt8
  digit : ∀ c ∈ digits, 48 ≤ c ∧ c ≤ 57
  ne_nil : digits ≠ []
  canonical : digits.head? = some 48 → digits = [48]
  fits : digitsFrom 10 digits 0 < 2 ^ 64

namespace DecimalField

def text (f : DecimalField) : List UInt8 := (if f.neg then [45] else []) ++ f.digits

/-- The number. -/
def value (f : DecimalField) : Int :=
  if f.neg then -(digitsFrom 10 f.digits 0 : Int) else digitsFrom 10 f.digits 0

theorem not_isspace_of_digit {c : UInt8} (hc : 48 ≤ c ∧ c ≤ 57) : isspace c = false := by
  have hlow : 48 ≤ c.toNat := UInt8.le_iff_toNat_le.mp hc.1
  have hspace : ¬c = 32 := fun h => absurd (h ▸ hlow) (by decide)
  have hhigh : ¬c ≤ 13 := fun h => absurd (Nat.le_trans hlow (UInt8.le_iff_toNat_le.mp h)) (by decide)
  simp [isspace, hspace, hhigh]

/-- No whitespace stands in a field. -/
theorem countP_text (f : DecimalField) : f.text.countP isspace = 0 := by
  rw [List.countP_eq_zero]
  intro c hc
  rw [Bool.not_eq_true]
  rcases List.mem_append.mp hc with hsign | hdigit
  · split at hsign
    · rw [List.mem_singleton.mp hsign]
      rfl
    · cases hsign
  · exact not_isspace_of_digit (f.digit c hdigit)

/-- The digits of a field are read in base 10; a single zero is read in base 8. -/
theorem digits_read (f : DecimalField) :
    digitsFrom (baseOf f.digits).1 (baseOf f.digits).2 0 = digitsFrom 10 f.digits 0 := by
  obtain ⟨d, ds, hds⟩ := List.exists_cons_of_ne_nil f.ne_nil
  by_cases hzero : d = 48
  · have hone : f.digits = [48] := f.canonical (by rw [hds, hzero]; rfl)
    rw [hone]
    rfl
  · rw [hds, CpuMemStat.baseOf_of_ne hzero]

/-- A field behind a space is read as its number, at `unsigned long`. -/
theorem strtoul_text (f : DecimalField) {c : UInt8} (hc : CpuMemStat.EndsNumber c)
    (rest : List UInt8) : strtoul (32 :: (f.text ++ c :: rest)) = SizeT.ofInt f.value := by
  have hfits := f.fits
  obtain ⟨d, ds, hds⟩ := List.exists_cons_of_ne_nil f.ne_nil
  have hd := f.digit d (by rw [hds]; exact List.mem_cons_self)
  have hspace : isspace d = false := not_isspace_of_digit hd
  have hmem : d ∈ 32 :: f.text := by
    rw [text, hds]
    exact .tail _ (List.mem_append_right _ (.head _))
  have hcut : strtoul (32 :: (f.text ++ c :: rest)) = strtoul (32 :: f.text) :=
    CpuMemStat.strtoul_append (p := 32 :: f.text) hc rest (.inr ⟨d, hmem, hspace⟩)
  have hsign : signOf ((32 :: f.text).dropWhile isspace) = (f.neg, f.digits) := by
    rw [List.dropWhile_cons_of_pos rfl, text]
    cases f.neg with
    | true => rfl
    | false =>
      have hminus : d ≠ 45 := fun h => absurd (h ▸ hd.1) (by decide)
      have hplus : d ≠ 43 := fun h => absurd (h ▸ hd.1) (by decide)
      rw [hds]
      simp [hspace, signOf, hminus, hplus]
  rw [hcut, strtoul, hsign]
  dsimp only
  rw [f.digits_read, if_neg (Nat.not_le_of_lt hfits), value]
  cases f.neg with
  | true =>
    simp only [if_true, SizeT.sub, SizeT.ofInt]
    omega
  | false =>
    simp only [Bool.false_eq_true, if_false, SizeT.ofInt]
    omega

end DecimalField

/-! ## The text -/

namespace CpuMemStat

theorem fromSpace_append (p q : List UInt8) {k : Nat} (hk : p.countP isspace ≤ k) :
    fromSpace (p ++ q) k = fromSpace q (k - p.countP isspace) := by
  induction p generalizing k with
  | nil => rfl
  | cons c p ih =>
    rw [List.cons_append, fromSpace]
    by_cases hspace : isspace c = true
    · rw [List.countP_cons_of_pos hspace] at hk ⊢
      rw [if_pos hspace, if_neg (Nat.ne_of_gt (Nat.lt_of_succ_le (Nat.le_trans (by omega) hk))),
        ih (Nat.le_sub_of_add_le hk), Nat.sub_sub, Nat.add_comm 1]
    · rw [List.countP_cons_of_neg hspace] at hk ⊢
      rw [if_neg hspace, ih hk]

/-- There are as many whitespaces as are counted. -/
theorem fromSpace_append_of_lt (p q : List UInt8) {k : Nat} (hk : k < p.countP isspace) :
    ∃ rest, fromSpace p k = some rest ∧ fromSpace (p ++ q) k = some (rest ++ q) := by
  induction p generalizing k with
  | nil => exact absurd hk (Nat.not_lt_zero k)
  | cons c p ih =>
    rw [List.cons_append, fromSpace, fromSpace]
    by_cases hspace : isspace c = true
    · rw [List.countP_cons_of_pos hspace] at hk
      rw [if_pos hspace, if_pos hspace]
      by_cases hzero : k = 0
      · rw [if_pos hzero, if_pos hzero]
        exact ⟨c :: p, rfl, rfl⟩
      · rw [if_neg hzero, if_neg hzero]
        exact ih (by omega)
    · rw [List.countP_cons_of_neg hspace] at hk
      rw [if_neg hspace, if_neg hspace]
      exact ih hk

end CpuMemStat

/-- The text of a `stat` file: the process's number, its name in parentheses, the character of its
state, and decimal fields, up to the seventeenth at least. -/
structure ProcStat where
  pid : DecimalField
  name : List UInt8
  state : UInt8
  fields : List DecimalField
  state_char : isspace state = false
  enough : 14 ≤ fields.length

namespace ProcStat

open CpuMemStat (fromSpace)

/-- The decimal fields, each behind a space, and the end of the line. -/
def fieldsText (fields : List DecimalField) : List UInt8 :=
  fields.flatMap (fun f => 32 :: f.text) ++ [10]

/-- What stands in front of them. -/
def headText (t : ProcStat) : List UInt8 :=
  t.pid.text ++ (32 :: 40 :: (t.name ++ [41, 32, t.state]))

def text (t : ProcStat) : List UInt8 := t.headText ++ fieldsText t.fields

/-- Field `j` as a `tuint64`, counted from 1; the decimal fields are those from 4 on. -/
def value (t : ProcStat) (j : Nat) : Nat :=
  match t.fields[j - 4]? with
  | some f => SizeT.ofInt f.value
  | none => 0

/-- The whitespaces in the process's name. -/
def nameSpaces (t : ProcStat) : Nat := t.name.countP isspace

theorem countP_headText (t : ProcStat) : t.headText.countP isspace = t.nameSpaces + 2 := by
  have hparen : isspace 40 = false := rfl
  have hparen' : isspace 41 = false := rfl
  have hspace : isspace 32 = true := rfl
  simp [headText, nameSpaces, DecimalField.countP_text, List.countP_append, hparen, hparen', hspace,
    t.state_char]

theorem fieldsText_cons (f : DecimalField) (fields : List DecimalField) :
    fieldsText (f :: fields) = (32 :: f.text) ++ fieldsText fields := by
  rw [fieldsText, List.flatMap_cons, List.append_assoc]
  rfl

/-- Behind the state, and behind each field, a number ends. -/
theorem exists_fieldsText_cons (fields : List DecimalField) :
    ∃ c rest, CpuMemStat.EndsNumber c ∧ fieldsText fields = c :: rest := by
  cases fields with
  | nil => exact ⟨10, [], ⟨rfl, by decide, by decide⟩, rfl⟩
  | cons g fields => exact ⟨32, _, ⟨rfl, by decide, by decide⟩, fieldsText_cons g fields⟩

/-- Behind a field's space its number is read, and behind the last field nothing. -/
theorem fieldsText_number (fields : List DecimalField) {j : Nat} (hj : j ≤ fields.length) :
    (fromSpace (fieldsText fields) j).map strtoul =
      some (match fields[j]? with
        | some f => SizeT.ofInt f.value
        | none => 0) := by
  induction fields generalizing j with
  | nil =>
    obtain rfl : j = 0 := Nat.le_zero.mp hj
    rfl
  | cons f fields ih =>
    rw [fieldsText_cons]
    cases j with
    | zero =>
      obtain ⟨c, rest, hc, hnext⟩ := exists_fieldsText_cons fields
      have hspace : isspace 32 = true := rfl
      rw [List.cons_append, fromSpace, if_pos hspace, if_pos rfl, hnext, Option.map_some,
        f.strtoul_text hc]
      rfl
    | succ j =>
      have hfield : (32 :: f.text).countP isspace = 1 := by
        rw [List.countP_cons_of_pos rfl, f.countP_text]
      rw [CpuMemStat.fromSpace_append _ _ (by omega), hfield, Nat.add_sub_cancel,
        ih (Nat.le_of_succ_le_succ hj)]
      rfl

/-- The number that is read for field `14 + i`. The name's whitespaces move the fields by as many, up
to `11 + i` of them. With one more the state is read, and with more than that the name itself, behind
its whitespace `12 + i`, counted from 0. -/
def readNumber (t : ProcStat) (i : Nat) : Nat :=
  if t.nameSpaces ≤ 11 + i then t.value (15 + i - t.nameSpaces)
  else if t.nameSpaces = 12 + i then strtoul [t.state]
  else strtoul ((fromSpace t.name (12 + i)).getD [])

theorem text_eq (t : ProcStat) :
    t.text = (t.pid.text ++ [32, 40]) ++ (t.name ++ 41 :: 32 :: t.state :: fieldsText t.fields) := by
  simp [text, headText]

theorem text_number (t : ProcStat) {i : Nat} (hi : i < 4) :
    (fromSpace t.text (13 + i)).map strtoul = some (t.readNumber i) := by
  have henough := t.enough
  have hpid : (t.pid.text ++ [32, 40]).countP isspace = 1 := by
    rw [List.countP_append, t.pid.countP_text]
    rfl
  -- Behind the number of the process, a whitespace less is to be counted.
  have hname : fromSpace t.text (13 + i) =
      fromSpace (t.name ++ 41 :: 32 :: t.state :: fieldsText t.fields) (12 + i) := by
    rw [text_eq, CpuMemStat.fromSpace_append _ _ (by omega), hpid, show 13 + i - 1 = 12 + i by omega]
  rw [readNumber]
  split
  · next hfew =>
    rw [text, CpuMemStat.fromSpace_append _ _ (by rw [countP_headText]; omega), countP_headText,
      fieldsText_number _ (by omega), value,
      show 13 + i - (t.nameSpaces + 2) = 15 + i - t.nameSpaces - 4 by omega]
  · next hmany =>
    split
    · next hstate =>
      obtain ⟨c, rest, hc, hrest⟩ := exists_fieldsText_cons t.fields
      have hbehind : fromSpace t.text (13 + i) = some ([32, t.state] ++ c :: rest) := by
        have hcount : t.name.countP isspace = 12 + i := hstate
        rw [hname, CpuMemStat.fromSpace_append _ _ (Nat.le_of_eq hcount), hcount, Nat.sub_self, hrest]
        rfl
      rw [hbehind, Option.map_some,
        CpuMemStat.strtoul_append hc rest (.inr ⟨t.state, .tail _ (.head _), t.state_char⟩)]
      rfl
    · next hnot =>
      have hcount : 12 + i < t.name.countP isspace := by
        have hlt : 12 + i < t.nameSpaces := by omega
        exact hlt
      obtain ⟨rest, hrest, hbehind⟩ := CpuMemStat.fromSpace_append_of_lt t.name
        (41 :: 32 :: t.state :: fieldsText t.fields) hcount
      have hends : CpuMemStat.EndsNumber 41 := ⟨rfl, by decide, by decide⟩
      rw [hname, hbehind, hrest, Option.map_some, CpuMemStat.strtoul_append hends _ (.inl rfl)]
      rfl

end ProcStat

namespace CpuMemStat

/-- `ReBuildCpu` ends, and leaves the times of the process's four fields. -/
structure ReadsFields (t : ProcStat) (r : Except Thrown Unit × CpuMemStat) : Prop where
  returns : r.1 = .ok ()
  utime : r.2.utime = t.value 14
  ktime : r.2.ktime = t.value 15
  wcutime : r.2.wcutime = t.value 16
  wcktime : r.2.wcktime = t.value 17

/-- `ReBuildCpu` on a file that can be read is its scan. -/
theorem exec_reBuildCpu {fopen : String → Option (List UInt8)} {s : CpuMemStat} {t : ProcStat}
    (hopen : fopen s.statFileName = some t.text) (hlen : t.text.length < 4096) :
    exec (reBuildCpu fopen) s = (.ok (), scan t.text 0 s) := by
  have hpos : 0 < t.text.length := by
    rw [ProcStat.text, ProcStat.fieldsText, List.length_append, List.length_append]
    exact Nat.lt_add_left _ (Nat.lt_add_left _ Nat.one_pos)
  have hall : t.text.take (4096 - 1) = t.text := List.take_of_length_le (Nat.le_of_lt_succ hlen)
  simp [reBuildCpu, enterLeaveProject, hopen, hall, hpos]

/-- The scan leaves the numbers it reads, which are those of the four fields or not. -/
theorem scan_reads_iff (t : ProcStat) (s : CpuMemStat) :
    ReadsFields t (.ok (), scan t.text 0 s) ↔ ∀ i < 4, t.readNumber i = t.value (14 + i) := by
  have htime : ∀ i < 4, (scan t.text 0 s).time i = t.readNumber i := by
    intro i hi
    rw [scan_time hi, t.text_number hi]
    rfl
  constructor
  · intro h i hi
    rw [← htime i hi]
    have hcases : i = 0 ∨ i = 1 ∨ i = 2 ∨ i = 3 := by omega
    rcases hcases with rfl | rfl | rfl | rfl
    · exact h.utime
    · exact h.ktime
    · exact h.wcutime
    · exact h.wcktime
  · intro hsame
    refine ⟨rfl, ?_, ?_, ?_, ?_⟩
    · exact (htime 0 (by decide)).trans (hsame 0 (by decide))
    · exact (htime 1 (by decide)).trans (hsame 1 (by decide))
    · exact (htime 2 (by decide)).trans (hsame 2 (by decide))
    · exact (htime 3 (by decide)).trans (hsame 3 (by decide))

/-- One whitespace in the name makes up for the count that starts one field late. -/
theorem readNumber_of_one_space {t : ProcStat} (h : t.nameSpaces = 1) (i : Nat) :
    t.readNumber i = t.value (14 + i) := by
  rw [ProcStat.readNumber, h, if_pos (Nat.le_add_right_of_le (by decide)),
    show 15 + i - 1 = 14 + i by omega]

/-- **Which fields are read.** `ReBuildCpu` reads fields 14 to 17 exactly when the numbers it reads
are theirs: those of fields 15 to 18, moved back by one for each whitespace in the name, as far as
the name. -/
theorem reBuildCpu_reads_iff (t : ProcStat) (hlen : t.text.length < 4096) (s : CpuMemStat)
    {fopen : String → Option (List UInt8)} (hopen : fopen s.statFileName = some t.text) :
    ReadsFields t (exec (reBuildCpu fopen) s) ↔ ∀ i < 4, t.readNumber i = t.value (14 + i) := by
  rw [exec_reBuildCpu hopen hlen]
  exact scan_reads_iff t s

/-! ## A shell

Its name has no whitespace, and its times differ. -/

/-- The field of one digit. -/
def oneDigit (c : UInt8) (hc : 48 ≤ c ∧ c ≤ 57) : DecimalField where
  neg := false
  digits := [c]
  digit := by simpa using hc
  ne_nil := List.cons_ne_nil _ _
  canonical := by simp
  fits := by
    have hlow : 48 ≤ c.toNat := UInt8.le_iff_toNat_le.mp hc.1
    have hhigh : c.toNat ≤ 57 := UInt8.le_iff_toNat_le.mp hc.2
    simp only [digitsFrom, digitValue, if_pos hc]
    split <;> omega

def shellTimes : List DecimalField :=
  List.replicate 10 (oneDigit 48 (by decide)) ++ [oneDigit 49 (by decide), oneDigit 50 (by decide),
    oneDigit 51 (by decide), oneDigit 52 (by decide), oneDigit 53 (by decide)]

/-- The shell's name is `sh` then, and `s h` with a space. -/
def shell (name : List UInt8) : ProcStat :=
  ⟨oneDigit 55 (by decide), name, 83, shellTimes, rfl, by decide⟩

def noTimes : CpuMemStat := ⟨7, 0, 0, 0, 0⟩

theorem reBuildCpu_reads_iff_shell :
    ReadsFields (shell [115, 32, 104])
        (exec (reBuildCpu fun _ => some (shell [115, 32, 104]).text) noTimes) ↔
      ∀ i < 4, (shell [115, 32, 104]).readNumber i = (shell [115, 32, 104]).value (14 + i) :=
  reBuildCpu_reads_iff (shell [115, 32, 104]) (by decide) noTimes rfl

/-- The user time is the one of field 15. -/
theorem shell_times_shifted :
    (shell [115, 104]).value 14 = 1 ∧ (shell [115, 104]).readNumber 0 = 2 ∧
      ¬ReadsFields (shell [115, 104])
        (exec (reBuildCpu fun _ => some (shell [115, 104]).text) noTimes) := by
  have hvalue : (shell [115, 104]).value 14 = 1 := by decide
  have hread : (shell [115, 104]).readNumber 0 = 2 := by decide
  have hopen : (fun _ : String => some (shell [115, 104]).text) noTimes.statFileName =
      some (shell [115, 104]).text := rfl
  refine ⟨hvalue, hread, ?_⟩
  rw [exec_reBuildCpu hopen (by decide), scan_reads_iff]
  intro hsame
  have hfirst := hsame 0 (by decide)
  rw [hread, hvalue] at hfirst
  exact absurd hfirst (by decide)

end CpuMemStat

end MmDriver
