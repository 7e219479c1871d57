import Mathlib.Logic.Function.Basic

/-!
# A directory of files

A name leads to a file, and a file is open or not, whatever its name is then. Each operation has
one lemma about the name it is about, and one about the others.
-/

namespace MmDriver

/-- Names, files and their contents. No two names lead to one file. -/
structure Disk (ν α : Type) where
  entry : ν → Option Nat
  content : Nat → List α
  next : Nat
  entry_lt : ∀ n i, entry n = some i → i < next
  entry_inj : ∀ m n i, entry m = some i → entry n = some i → m = n

namespace Disk

variable {ν α : Type}

/-- No files. -/
def empty : Disk ν α where
  entry _ := none
  content _ := []
  next := 0
  entry_lt := by
    intro n i h
    cases h
  entry_inj := by
    intro m n i h
    cases h

/-- What the file of a name holds. -/
def read (d : Disk ν α) (n : ν) : Option (List α) := (d.entry n).map d.content

/-- The bytes at the end of an open file. -/
def append (d : Disk ν α) (i : Nat) (text : List α) : Disk ν α :=
  { d with content := Function.update d.content i (d.content i ++ text) }

theorem read_of_entry {d : Disk ν α} {n : ν} {i : Nat} (h : d.entry n = some i) :
    d.read n = some (d.content i) := by
  rw [read, h, Option.map_some]

@[simp] theorem entry_append (d : Disk ν α) (i : Nat) (text : List α) :
    (d.append i text).entry = d.entry := rfl

theorem read_append {d : Disk ν α} {n : ν} {i : Nat} (h : d.entry n = some i) (text : List α) :
    (d.append i text).read n = some (d.content i ++ text) := by
  rw [read, entry_append, h, Option.map_some]
  exact congrArg some (Function.update_self ..)

theorem read_append_of_ne {d : Disk ν α} {n : ν} {i : Nat} (h : d.entry n ≠ some i)
    (text : List α) : (d.append i text).read n = d.read n := by
  rw [read, entry_append, read]
  cases hentry : d.entry n with
  | none => rfl
  | some j =>
    have hne : j ≠ i := fun hj => h (hj ▸ hentry)
    rw [Option.map_some, Option.map_some]
    exact congrArg some (Function.update_of_ne hne ..)

theorem read_append_of_name_ne {d : Disk ν α} {m n : ν} {i : Nat} (hn : d.entry n = some i)
    (hne : m ≠ n) (text : List α) : (d.append i text).read m = d.read m :=
  read_append_of_ne (fun hm => hne (d.entry_inj m n i hm hn)) text

variable [DecidableEq ν]

/-- A file opened for appending, made when there is none. -/
def openAppend (d : Disk ν α) (n : ν) : Nat × Disk ν α :=
  match hentry : d.entry n with
  | some i => (i, d)
  | none =>
    (d.next,
      { entry := Function.update d.entry n (some d.next)
        content := Function.update d.content d.next []
        next := d.next + 1
        entry_lt := by
          intro m i h
          by_cases hm : m = n
          · rw [hm, Function.update_self] at h
            cases h
            exact Nat.lt_succ_self _
          · rw [Function.update_of_ne hm] at h
            exact Nat.lt_succ_of_lt (d.entry_lt m i h)
        entry_inj := by
          intro m k i hm hk
          by_cases hmn : m = n <;> by_cases hkn : k = n
          · rw [hmn, hkn]
          · rw [hmn, Function.update_self] at hm
            rw [Function.update_of_ne hkn] at hk
            cases hm
            exact absurd (d.entry_lt k _ hk) (Nat.lt_irrefl _)
          · rw [hkn, Function.update_self] at hk
            rw [Function.update_of_ne hmn] at hm
            cases hk
            exact absurd (d.entry_lt m _ hm) (Nat.lt_irrefl _)
          · rw [Function.update_of_ne hmn] at hm
            rw [Function.update_of_ne hkn] at hk
            exact d.entry_inj m k i hm hk })

/-- The name without its file. -/
def remove (d : Disk ν α) (n : ν) : Disk ν α where
  entry := Function.update d.entry n none
  content := d.content
  next := d.next
  entry_lt := by
    intro m i h
    by_cases hm : m = n
    · rw [hm, Function.update_self] at h
      cases h
    · rw [Function.update_of_ne hm] at h
      exact d.entry_lt m i h
  entry_inj := by
    intro m k i hm hk
    by_cases hmn : m = n
    · rw [hmn, Function.update_self] at hm
      cases hm
    · by_cases hkn : k = n
      · rw [hkn, Function.update_self] at hk
        cases hk
      · rw [Function.update_of_ne hmn] at hm
        rw [Function.update_of_ne hkn] at hk
        exact d.entry_inj m k i hm hk

/-- The file under another name, whose own file is gone. -/
def rename (d : Disk ν α) (a b : ν) : Disk ν α :=
  match hentry : d.entry a with
  | none => d
  | some i =>
    { entry := Function.update (Function.update d.entry a none) b (some i)
      content := d.content
      next := d.next
      entry_lt := by
        intro m j h
        by_cases hb : m = b
        · rw [hb, Function.update_self] at h
          cases h
          exact d.entry_lt a _ hentry
        · rw [Function.update_of_ne hb] at h
          exact (d.remove a).entry_lt m j h
      entry_inj := by
        have hother : ∀ m, Function.update d.entry a none m ≠ some i := by
          intro m h
          by_cases ha : m = a
          · rw [ha, Function.update_self] at h
            cases h
          · rw [Function.update_of_ne ha] at h
            exact ha (d.entry_inj m a i h hentry)
        intro m k j hm hk
        by_cases hmb : m = b <;> by_cases hkb : k = b
        · rw [hmb, hkb]
        · rw [hmb, Function.update_self] at hm
          rw [Function.update_of_ne hkb] at hk
          cases hm
          exact absurd hk (hother k)
        · rw [hkb, Function.update_self] at hk
          rw [Function.update_of_ne hmb] at hm
          cases hk
          exact absurd hm (hother m)
        · rw [Function.update_of_ne hmb] at hm
          rw [Function.update_of_ne hkb] at hk
          exact (d.remove a).entry_inj m k j hm hk }

/-! ## What a name leads to afterwards -/

theorem entry_openAppend (d : Disk ν α) (n : ν) :
    (d.openAppend n).2.entry n = some (d.openAppend n).1 := by
  rw [openAppend]
  split
  · next hentry => exact hentry
  · exact Function.update_self ..

theorem entry_openAppend_of_ne (d : Disk ν α) {m n : ν} (hne : m ≠ n) :
    (d.openAppend n).2.entry m = d.entry m := by
  rw [openAppend]
  split
  · rfl
  · exact Function.update_of_ne hne ..

theorem read_openAppend (d : Disk ν α) (n : ν) :
    (d.openAppend n).2.read n = some ((d.read n).getD []) := by
  rw [openAppend]
  split
  · next hentry => rw [read_of_entry hentry, Option.getD_some]
  · next hentry =>
    rw [read, read, hentry]
    simp only [Function.update_self, Option.map_some, Option.map_none, Option.getD_none]

theorem read_openAppend_of_ne (d : Disk ν α) {m n : ν} (hne : m ≠ n) :
    (d.openAppend n).2.read m = d.read m := by
  rw [read, entry_openAppend_of_ne d hne, read]
  cases hentry : d.entry m with
  | none => rfl
  | some i =>
    rw [Option.map_some, Option.map_some, openAppend]
    split
    · rfl
    · exact congrArg some (Function.update_of_ne (Nat.ne_of_lt (d.entry_lt m i hentry)) ..)

theorem entry_remove_of_ne (d : Disk ν α) {m n : ν} (hne : m ≠ n) :
    (d.remove n).entry m = d.entry m := Function.update_of_ne hne ..

theorem read_remove_of_ne (d : Disk ν α) {m n : ν} (hne : m ≠ n) :
    (d.remove n).read m = d.read m := by
  rw [read, entry_remove_of_ne d hne]
  rfl

theorem entry_rename {d : Disk ν α} {a b : ν} {i : Nat} (h : d.entry a = some i) :
    (d.rename a b).entry = Function.update (Function.update d.entry a none) b (some i) := by
  rw [rename]
  split
  · next hnone =>
    rw [h] at hnone
    cases hnone
  · next j hj =>
    rw [h] at hj
    cases hj
    rfl

theorem content_rename (d : Disk ν α) (a b : ν) : (d.rename a b).content = d.content := by
  rw [rename]
  split
  · rfl
  · rfl

theorem read_rename_new {d : Disk ν α} {a b : ν} {i : Nat} (h : d.entry a = some i) :
    (d.rename a b).read b = d.read a := by
  rw [read, entry_rename h, content_rename, Function.update_self, read_of_entry h, Option.map_some]

theorem read_rename_old {d : Disk ν α} {a b : ν} {i : Nat} (h : d.entry a = some i)
    (hne : a ≠ b) : (d.rename a b).read a = none := by
  rw [read, entry_rename h, Function.update_of_ne hne, Function.update_self, Option.map_none]

theorem read_rename_of_ne {d : Disk ν α} {a b m : ν} (ha : m ≠ a) (hb : m ≠ b) :
    (d.rename a b).read m = d.read m := by
  cases hentry : d.entry a with
  | none =>
    rw [rename]
    split
    · rfl
    · next hsome =>
      rw [hentry] at hsome
      cases hsome
  | some i =>
    rw [read, entry_rename hentry, content_rename, Function.update_of_ne hb,
      Function.update_of_ne ha, read]

end Disk

end MmDriver
