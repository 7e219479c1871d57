import MmDriver.Laws.Common.LuaSlots

/-!
# What is read from a value

What is read is a function of the value and of the order in which `lua_next` gives the entries: the
copy. The reading of an acyclic value returns with it exactly if there are slots for what it pushes
(`keepsStack_iff_hasSlots`), as there are for tables that are not nested too deep.
-/

namespace MmDriver

namespace LuaState

variable {L : LuaState} {v : LuaValue} {below : List LuaValue} {m S S' : Nat}

/-! ## The copy -/

/-- The children that a table's entries leave, where `copy` says what is read from a value. -/
def copyEntries (copy : LuaValue → Option LuaObject) : List LuaEntry → LuaObjectMap → LuaObjectMap
  | [], keyObjs => keyObjs
  | e :: rest, keyObjs =>
    match keyName e.1 with
    | some pname => copyEntries copy rest (insertObject keyObjs pname (copy e.2))
    | none => keyObjs

/-- What is read from a value with at most that many tables in one another. -/
def copyTo (L : LuaState) : Nat → LuaValue → Option LuaObject
  | _, .number x => some (.luanumber [] x)
  | _, .string s => some (.luastring [] (cText s))
  | depth + 1, .table t =>
    if L.rawget t (.number LuaNumber.one) = .nil then
      some (.luatable [] (copyEntries (L.copyTo depth) (L.tables t).entries fun _ => none))
    else none
  | _, _ => none

/-- There are at most that many tables in one another. -/
def Depth (L : LuaState) : Nat → LuaValue → Prop
  | 0, v => ∀ t, v ≠ .table t
  | depth + 1, v => ∀ t, v = .table t → ∀ e ∈ (L.tables t).entries, L.Depth depth e.2

theorem Depth.succ {depth : Nat} (h : L.Depth depth v) : L.Depth (depth + 1) v := by
  induction depth generalizing v with
  | zero =>
    intro t ht
    exact absurd ht (h t)
  | succ depth ih =>
    intro t ht e he
    exact ih (h t ht e he)

theorem Depth.mono {depth depth' : Nat} (h : L.Depth depth v) (hle : depth ≤ depth') :
    L.Depth depth' v := by
  induction hle with
  | refl => exact h
  | step _ ih => exact ih.succ

/-- Every chain of tables, each a value in the one before, comes to an end. -/
inductive Acyclic (L : LuaState) : LuaValue → Prop
  | intro (v : LuaValue) (h : ∀ t, v = .table t → ∀ e ∈ (L.tables t).entries, Acyclic L e.2) :
      Acyclic L v

theorem Depth.acyclic {depth : Nat} (h : L.Depth depth v) : L.Acyclic v := by
  induction depth generalizing v with
  | zero => exact ⟨v, fun t ht => absurd ht (h t)⟩
  | succ depth ih => exact ⟨v, fun t ht e he => ih (h t ht e he)⟩

/-- A rank that the values in a table are below makes every value acyclic. -/
theorem acyclic_of_rank (rank : Nat → Nat)
    (hrank : ∀ t, ∀ e ∈ (L.tables t).entries, ∀ t', e.2 = .table t' → rank t' < rank t)
    (v : LuaValue) : L.Acyclic v := by
  have hall : ∀ n, ∀ v : LuaValue, (∀ t, v = .table t → rank t < n) → L.Acyclic v := by
    intro n
    induction n with
    | zero =>
      intro v hv
      exact ⟨v, fun t ht => absurd (hv t ht) (Nat.not_lt_zero _)⟩
    | succ n ih =>
      intro v hv
      refine ⟨v, fun t ht e he => ih e.2 fun t' ht' => ?_⟩
      have hlt := hrank t e he t' ht'
      have hle := hv t ht
      omega
  cases v with
  | table t => exact hall (rank t + 1) _ fun t' ht' => by rw [LuaValue.table.inj ht']; omega
  | _ => exact hall 0 _ fun t ht => by cases ht

/-- Finitely many entries have a common bound for what is nested in them. -/
theorem exists_depth_of_entries {entries : List LuaEntry}
    (h : ∀ e ∈ entries, ∃ depth, L.Depth depth e.2) : ∃ depth, ∀ e ∈ entries, L.Depth depth e.2 := by
  induction entries with
  | nil => exact ⟨0, List.forall_mem_nil _⟩
  | cons e rest ih =>
    obtain ⟨depth, hrest⟩ := ih fun f hf => h f (.tail _ hf)
    obtain ⟨depth', he⟩ := h e (.head _)
    refine ⟨max depth depth', List.forall_mem_cons.mpr ⟨?_, fun f hf => ?_⟩⟩
    · exact he.mono (Nat.le_max_right _ _)
    · exact (hrest f hf).mono (Nat.le_max_left _ _)

theorem Acyclic.exists_depth (h : L.Acyclic v) : ∃ depth, L.Depth depth v := by
  induction h with
  | intro v _ ih =>
    cases v with
    | table t =>
      obtain ⟨depth, hdepth⟩ := exists_depth_of_entries fun e he => ih t rfl e he
      exact ⟨depth + 1, fun t' ht' => LuaValue.table.inj ht' ▸ hdepth⟩
    | _ => exact ⟨0, fun t ht => by cases ht⟩

theorem copyTo_scalar (depth : Nat) (h : v.type ≠ .table) : L.copyTo depth v = scalar v := by
  cases v with
  | table t => exact absurd rfl h
  | _ => cases depth <;> rfl

/-! ## The slots -/

/-- The entries that are read: those before a key that gives no name. -/
def named (entries : List LuaEntry) : List LuaEntry :=
  entries.takeWhile fun e => (keyName e.1).isSome

/-- At some time, the reading of a value has that many values on the stack above it. -/
inductive Pushes (L : LuaState) : LuaValue → Nat → Prop
  | field (t : Nat) : Pushes L (.table t) 1
  | entry {t : Nat} (hplain : L.rawget t (.number LuaNumber.one) = .nil)
      (hentries : (L.tables t).entries ≠ []) : Pushes L (.table t) 2
  | nested {t k : Nat} {e : LuaEntry} (hplain : L.rawget t (.number LuaNumber.one) = .nil)
      (he : e ∈ named (L.tables t).entries) (h : Pushes L e.2 k) : Pushes L (.table t) (k + 2)

/-- With the value, `m` slots are in use of an array of that size: it grows to have a slot for
whatever the reading pushes. -/
def HasSlots (L : LuaState) (v : LuaValue) (m S : Nat) : Prop :=
  ∀ k, L.Pushes v k → L.base + m + k ≤ L.grownSize m S

theorem HasSlots.grown (h : L.HasSlots v m S) (hgrown : L.ArrayGrown m S S') : L.HasSlots v m S' := by
  intro k hk
  rw [hgrown.same]
  exact h k hk

/-- The slots for what is read in a table are there once the table is checked. -/
theorem HasSlots.value {t : Nat} (h : L.HasSlots (.table t) m S)
    (hplain : L.rawget t (.number LuaNumber.one) = .nil) {e : LuaEntry}
    (he : e ∈ named (L.tables t).entries) : L.HasSlots e.2 (m + 2) (L.checkedSize m S) := by
  intro k hk
  have hslot := h (k + 2) (.nested hplain he hk)
  rw [grownSize_checked]
  omega

theorem mem_of_named {entries : List LuaEntry} {e : LuaEntry} (h : e ∈ named entries) :
    e ∈ entries := (List.takeWhile_sublist _).subset h

theorem named_cons {e : LuaEntry} {rest : List LuaEntry} {pname : LuaName}
    (h : keyName e.1 = some pname) : named (e :: rest) = e :: named rest := by
  rw [named, List.takeWhile_cons, h]
  rfl

/-- Values with at most that many tables in one another push two values for each. -/
theorem Pushes.le {k depth : Nat} (h : L.Pushes v k) (hdepth : L.Depth depth v) : k ≤ 2 * depth := by
  induction h generalizing depth with
  | field t =>
    cases depth with
    | zero => exact absurd rfl (hdepth t)
    | succ depth => omega
  | entry _ _ =>
    cases depth with
    | zero => exact absurd rfl (hdepth _)
    | succ depth => omega
  | nested _ he _ ih =>
    cases depth with
    | zero => exact absurd rfl (hdepth _)
    | succ depth =>
      have hinner := ih (hdepth _ rfl _ (mem_of_named he))
      omega

/-- Up to `LUAI_MAXCSTACK`, there are slots. -/
theorem le_grownSize_of_le (k m S : Nat) (hin : L.base + m ≤ S) (hpos : 1 ≤ m)
    (hlimit : m + k ≤ luaiMaxCStack) : L.base + m + k ≤ L.grownSize m S := by
  by_cases h : m < luaiMaxCStack
  · have hslots := checkedSize_of_lt h hin hpos
    have hle := L.le_grownSize m S
    rw [grownSize_of_lt h]
    by_cases hfew : k ≤ 2
    · exact Nat.le_trans (by omega) (L.le_grownSize (m + 2) (L.checkedSize m S))
    · have hnext := le_grownSize_of_le (k - 2) (m + 2) (L.checkedSize m S) (by omega) (by omega)
        (by omega)
      omega
  · have hle := L.le_grownSize m S
    omega
termination_by luaiMaxCStack - m

theorem hasSlots_of_depth {depth : Nat} (h : L.Depth depth v) (hin : L.base + m ≤ S) (hpos : 1 ≤ m)
    (hlimit : m + 2 * depth ≤ luaiMaxCStack) : L.HasSlots v m S := by
  intro k hk
  have hle := hk.le h
  exact le_grownSize_of_le k m S hin hpos (by omega)

/-! ## The loop -/

/-- With enough fuel, and with slots, `GetLuaObjectFromStack` gives that object and leaves the
stack. -/
def Reads (L : LuaState) (v : LuaValue) (pvar : Option LuaObject) : Prop :=
  ∃ least, ∀ (below : List LuaValue) (S : Nat),
    L.base + below.length + 1 ≤ S → L.HasSlots v (below.length + 1) S →
    ∃ S', L.ArrayGrown (below.length + 1) S S' ∧ ∀ fuel, least ≤ fuel →
      getLuaObjectFromStack fuel ((L.withSize S).withStack (v :: below)) (-1) =
        some ((L.withSize S').withStack (v :: below), pvar)

/-- The loop from a key on: what stands behind it is copied, and the table is left on the stack. -/
theorem loop_reads {copy : LuaValue → Option LuaObject} {t : Nat} {rest : List LuaEntry}
    (hreads : ∀ e ∈ rest, L.Reads e.2 (copy e.2)) :
    ∃ least, ∀ (before : List LuaEntry) (key : LuaValue) (below : List LuaValue) (S : Nat)
      (keyObjs : LuaObjectMap),
      (L.tables t).entries = before ++ rest → (L.tables t).next key = some rest.head? →
      L.base + below.length + 1 ≤ S → (rest ≠ [] → L.base + below.length + 3 ≤ S) →
      (∀ e ∈ named rest, L.HasSlots e.2 (below.length + 3) S) →
      ∃ S', ∀ fuel, least ≤ fuel →
        getFromStackLoop fuel ((L.withSize S).withStack (key :: .table t :: below)) keyObjs =
          some ((L.withSize S').withStack (.table t :: below), copyEntries copy rest keyObjs) := by
  induction rest with
  | nil =>
    refine ⟨1, fun before key below S keyObjs hentries hnext hin _ _ => ⟨S, fun fuel hfuel => ?_⟩⟩
    obtain ⟨fuel, rfl⟩ : ∃ k, fuel = k + 1 := ⟨fuel - 1, by omega⟩
    exact loop_ends hnext fuel S keyObjs
  | cons e rest ih =>
    obtain ⟨least, hrest⟩ := ih fun f hf => hreads f (.tail _ hf)
    obtain ⟨least', he⟩ := hreads e (.head _)
    refine ⟨max least least' + 1, fun before key below S keyObjs hentries hnext hin hpush hslots => ?_⟩
    have hslot := hpush (List.cons_ne_nil e rest)
    cases hname : keyName e.1 with
    | none =>
      refine ⟨S, fun fuel hfuel => ?_⟩
      obtain ⟨fuel, rfl⟩ : ∃ k, fuel = k + 1 := ⟨fuel - 1, by omega⟩
      rw [loop_turn hnext, if_pos hslot, copyEntries, hname]
    | some pname =>
      rw [named_cons hname] at hslots
      obtain ⟨S₁, hgrown, hread⟩ := he (e.1 :: .table t :: below) S hslot (hslots e (.head _))
      have hle := hgrown.le
      have hbehind : (L.tables t).next e.1 = some rest.head? := LuaTable.next_of_entries hentries
      have hentries' : (L.tables t).entries = (before ++ [e]) ++ rest := by
        rw [hentries, List.append_assoc]
        rfl
      obtain ⟨S', hrest⟩ := hrest (before ++ [e]) e.1 below S₁ (insertObject keyObjs pname (copy e.2))
        hentries' hbehind (by omega) (fun _ => by omega) fun f hf =>
          (hslots f (.tail _ hf)).grown hgrown
      refine ⟨S', fun fuel hfuel => ?_⟩
      obtain ⟨fuel, rfl⟩ : ∃ k, fuel = k + 1 := ⟨fuel - 1, by omega⟩
      rw [loop_turn hnext, if_pos hslot, copyEntries, hname]
      dsimp only
      rw [hread fuel (by omega), Option.bind_some, pop_one, Option.bind_some]
      exact hrest fuel (by omega)

/-- `luatable::GetFromStack`, where its entries' values are read. -/
theorem getFromStack_reads {copy : LuaValue → Option LuaObject} {t : Nat}
    (hreads : ∀ e ∈ (L.tables t).entries, L.Reads e.2 (copy e.2)) :
    ∃ least, ∀ (below : List LuaValue) (S : Nat) (keyObjs : LuaObjectMap),
      L.base + below.length + 2 ≤ S →
      ((L.tables t).entries ≠ [] → L.base + below.length + 3 ≤ S) →
      (∀ e ∈ named (L.tables t).entries, L.HasSlots e.2 (below.length + 3) S) →
      ∃ S', ∀ fuel, least ≤ fuel →
        getFromStack fuel ((L.withSize S).withStack (.table t :: below)) keyObjs =
          some ((L.withSize S').withStack (.table t :: below),
            copyEntries copy (L.tables t).entries keyObjs) := by
  obtain ⟨least, hloop⟩ := loop_reads hreads
  refine ⟨least, fun below S keyObjs hin hpush hslots => ?_⟩
  obtain ⟨S', hloop⟩ := hloop [] .nil below S keyObjs rfl (LuaTable.next_nil _) (by omega) hpush
    hslots
  refine ⟨S', fun fuel hfuel => ?_⟩
  have hnil : (((L.withSize S).withStack (.table t :: below)).push .nil).inSlots =
      some ((L.withSize S).withStack (.nil :: .table t :: below)) := inSlots_of_le hin
  rw [getFromStack, hnil]
  exact hloop fuel hfuel

theorem reads_scalar (h : v.type ≠ .table) (depth : Nat) : L.Reads v (L.copyTo depth v) := by
  refine ⟨1, fun below S _ _ => ⟨S, .refl L _ S, fun fuel hfuel => ?_⟩⟩
  obtain ⟨fuel, rfl⟩ : ∃ k, fuel = k + 1 := ⟨fuel - 1, by omega⟩
  rw [L.read_scalar h, copyTo_scalar depth h]

theorem reads_copyTo {depth : Nat} (hdepth : L.Depth depth v) : L.Reads v (L.copyTo depth v) := by
  induction depth generalizing v with
  | zero =>
    refine reads_scalar (fun htable => ?_) 0
    cases v with
    | table t => exact hdepth t rfl
    | _ => cases htable
  | succ depth ih =>
    cases v with
    | table t =>
      obtain ⟨least, hloop⟩ := loop_reads (t := t) fun e he => ih (hdepth t rfl e he)
      refine ⟨least + 1, fun below S hin hslots => ?_⟩
      have hchecked := L.le_checkedSize (below.length + 1) S
      have hfield : L.base + below.length + 2 ≤ L.checkedSize (below.length + 1) S :=
        (le_checkedSize_iff hin (by omega) (by omega)).mpr (hslots 1 (.field t))
      have hread : ∃ S', ∀ fuel, least ≤ fuel → getLuaObjectFromStack (fuel + 1)
          ((L.withSize S).withStack (.table t :: below)) (-1) =
            some ((L.withSize S').withStack (.table t :: below), L.copyTo (depth + 1) (.table t)) := by
        by_cases hplain : L.rawget t (.number LuaNumber.one) = .nil
        · have hpush : (L.tables t).entries ≠ [] →
              L.base + below.length + 3 ≤ L.checkedSize (below.length + 1) S := fun hentries =>
            (le_checkedSize_iff hin (by omega) (Nat.le_refl 2)).mpr (hslots 2 (.entry hplain hentries))
          obtain ⟨S', hloop⟩ := hloop [] .nil below _ (fun _ => none) rfl (LuaTable.next_nil _)
            (by omega) hpush fun e he => hslots.value hplain he
          refine ⟨S', fun fuel hfuel => ?_⟩
          rw [L.read_table t hin fuel, copyTo, if_pos hfield, if_pos hplain, if_pos hplain,
            hloop fuel hfuel]
          rfl
        · refine ⟨L.checkedSize (below.length + 1) S, fun fuel _ => ?_⟩
          rw [L.read_table t hin fuel, copyTo, if_pos hfield, if_neg hplain, if_neg hplain]
      obtain ⟨S', hread⟩ := hread
      obtain ⟨S'', hgrown, hleft⟩ :=
        (L.kept (least + 1)).1 _ below S _ hin (hread least (Nat.le_refl least))
      obtain rfl : S' = S'' := congrArg stacksize hleft
      refine ⟨S', hgrown, fun fuel hfuel => ?_⟩
      obtain ⟨fuel, rfl⟩ : ∃ k, fuel = k + 1 := ⟨fuel - 1, by omega⟩
      exact hread fuel (by omega)
    | _ => exact reads_scalar LuaType.noConfusion _

theorem Acyclic.reads (h : L.Acyclic v) : ∃ pvar, L.Reads v pvar := by
  obtain ⟨depth, hdepth⟩ := h.exists_depth
  exact ⟨_, reads_copyTo hdepth⟩

/-! ## Behind the array's end -/

/-- Where the reading of an entry's value does not return, the loop before it does not. -/
theorem loop_overflows {t : Nat} {rest : List LuaEntry} {e : LuaEntry} (he : e ∈ named rest)
    (hnone : ∀ fuel S', L.base + below.length + 3 ≤ S' → L.ArrayGrown (below.length + 3) S S' →
      getLuaObjectFromStack fuel ((L.withSize S').withStack (e.2 :: e.1 :: .table t :: below)) (-1) =
        none) (fuel : Nat) (before : List LuaEntry) (key : LuaValue) (S' : Nat)
    (keyObjs : LuaObjectMap) (hentries : (L.tables t).entries = before ++ rest)
    (hnext : (L.tables t).next key = some rest.head?) (hgrown : L.ArrayGrown (below.length + 3) S S') :
    getFromStackLoop fuel ((L.withSize S').withStack (key :: .table t :: below)) keyObjs = none := by
  induction rest generalizing fuel before key S' keyObjs with
  | nil => cases he
  | cons f rest ih =>
    cases fuel with
    | zero => rfl
    | succ fuel =>
      rw [loop_turn hnext]
      split
      · next hslot =>
        cases hname : keyName f.1 with
        | none =>
          rw [named, List.takeWhile_cons, hname] at he
          cases he
        | some pname =>
          dsimp only
          cases hread : getLuaObjectFromStack fuel
              ((L.withSize S').withStack (f.2 :: f.1 :: .table t :: below)) (-1) with
          | none => rfl
          | some r =>
            rw [named_cons hname] at he
            rcases List.mem_cons.mp he with rfl | hlater
            · rw [hnone fuel S' hslot hgrown] at hread
              cases hread
            · obtain ⟨S'', hgrown', hleft⟩ :=
                (L.kept fuel).1 _ (f.1 :: .table t :: below) S' _ hslot hread
              rw [Option.bind_some, hleft, pop_one, Option.bind_some]
              refine ih hlater fuel (before ++ [f]) f.1 S'' _ ?_
                (LuaTable.next_of_entries hentries) (hgrown.trans hgrown')
              rw [hentries, List.append_assoc]
              rfl
      · rfl

/-- Where a value is pushed behind the array's end, the reading does not return. -/
theorem Pushes.overflows {k : Nat} (h : L.Pushes v k) (hin : L.base + below.length + 1 ≤ S)
    (hover : L.grownSize (below.length + 1) S < L.base + (below.length + 1) + k) (fuel : Nat) :
    getLuaObjectFromStack fuel ((L.withSize S).withStack (v :: below)) (-1) = none := by
  cases fuel with
  | zero => rfl
  | succ fuel =>
    induction h generalizing below S fuel with
    | field t =>
      have hnot : ¬L.base + below.length + 2 ≤ L.checkedSize (below.length + 1) S :=
        fun hslot => Nat.not_lt_of_le
          ((le_checkedSize_iff hin (by omega) (Nat.le_succ 1)).mp hslot) hover
      rw [L.read_table t hin fuel]
      exact if_neg hnot
    | @entry t hplain hentries =>
      have hnot : ¬L.base + below.length + 3 ≤ L.checkedSize (below.length + 1) S :=
        fun hslot => Nat.not_lt_of_le
          ((le_checkedSize_iff hin (by omega) (Nat.le_refl 2)).mp hslot) hover
      obtain ⟨e, rest, hrest⟩ := List.exists_cons_of_ne_nil hentries
      have hnext : (L.tables t).next .nil = some (some e) := by
        rw [LuaTable.next_nil, hrest]
        rfl
      rw [L.read_table t hin fuel]
      by_cases hslot : L.base + below.length + 2 ≤ L.checkedSize (below.length + 1) S
      · rw [if_pos hslot, if_pos hplain]
        cases fuel with
        | zero => rfl
        | succ fuel =>
          rw [loop_turn hnext, if_neg hnot]
          rfl
      · exact if_neg hslot
    | @nested t k e hplain he _ ih =>
      rw [L.read_table t hin fuel]
      by_cases hslot : L.base + below.length + 2 ≤ L.checkedSize (below.length + 1) S
      · rw [if_pos hslot, if_pos hplain]
        have hnone : ∀ fuel S', L.base + below.length + 3 ≤ S' →
            L.ArrayGrown (below.length + 3) (L.checkedSize (below.length + 1) S) S' →
            getLuaObjectFromStack fuel
              ((L.withSize S').withStack (e.2 :: e.1 :: .table t :: below)) (-1) = none := by
          intro fuel S' hin' hgrown
          cases fuel with
          | zero => rfl
          | succ fuel =>
            have hsame : L.grownSize (below.length + 3) S' = L.grownSize (below.length + 1) S :=
              hgrown.same.trans (L.grownSize_checked (below.length + 1) S)
            refine ih ?_ ?_ fuel
            · exact hin'
            · rw [List.length_cons, List.length_cons, hsame]
              omega
        rw [loop_overflows he hnone fuel [] .nil _ _ rfl (LuaTable.next_nil _) (.refl L _ _)]
        rfl
      · exact if_neg hslot

/-! ## The stack behind a reading -/

/-- `GetLuaObject`, where the global's value is read. -/
theorem getLuaObject_eq {call : Nat → LuaValue → LuaValue → Option LuaValue} {strName : LuaName}
    {fuel : Nat} {pvar : Option LuaObject} (hin : L.base + below.length + 1 ≤ S)
    (hglobal : L.gettable call (.string (cText strName)) 100 (.table L.globals) = some v)
    (hread : getLuaObjectFromStack fuel ((L.withSize S).withStack (v :: below)) (-1) =
      some ((L.withSize S').withStack (v :: below), pvar)) :
    ((L.withSize S).withStack below).getLuaObject call fuel strName =
      some ((L.withSize S').withStack below, pvar.map (LuaObject.setName strName)) := by
  have hfield : ((L.withSize S).withStack below).getfield call (.table L.globals) (cText strName) =
      some ((L.withSize S).withStack (v :: below)) := by
    have hsame := ((L.withSize S).gettable_withStack call (.string (cText strName)) 100 below
      (.table L.globals)).trans ((L.gettable_withSize call _ 100 S _).trans hglobal)
    rw [getfield, hsame]
    rfl
  have hslot : ((L.withSize S).withStack (v :: below)).inSlots =
      some ((L.withSize S).withStack (v :: below)) := inSlots_of_le hin
  have hglobals : ((L.withSize S).withStack below).globals = L.globals := rfl
  rw [getLuaObject, hglobals, hfield]
  simp only [Option.bind_eq_bind, Option.bind_some, hslot, hread, pop_one]
  exact if_pos rfl

/-- `GetLuaObjectFromStack` of the value on top returns and leaves the stack. So the check in
`GetLuaObject` holds, and behind the value of an entry the iteration goes on with the entry that
follows. -/
def KeepsStack (L : LuaState) (v : LuaValue) (below : List LuaValue) : Prop :=
  ∃ least pvar S', ∀ fuel, least ≤ fuel →
    getLuaObjectFromStack fuel (L.withStack (v :: below)) (-1) =
      some ((L.withSize S').withStack (v :: below), pvar) ∧
    (∀ (call : Nat → LuaValue → LuaValue → Option LuaValue) (strName : LuaName),
      L.gettable call (.string (cText strName)) 100 (.table L.globals) = some v →
      (L.withStack below).getLuaObject call fuel strName =
        some ((L.withSize S').withStack below, pvar.map (LuaObject.setName strName))) ∧
    ∀ (t : Nat) (key : LuaValue) (before rest : List LuaEntry) (bottom : List LuaValue),
      below = key :: .table t :: bottom → (L.tables t).entries = before ++ (key, v) :: rest →
      ((((L.withSize S').withStack (v :: below)).pop 1).bind fun L' => L'.next (-2)) =
        some ((L.withSize S').afterNext t bottom rest.head?)

/-- The reading of an acyclic value returns with the stack as it was exactly if there are slots for
what it pushes. -/
theorem keepsStack_iff_hasSlots (L : LuaState) (v : LuaValue) (below : List LuaValue)
    (hin : L.base + below.length + 1 ≤ L.stacksize) (hacyclic : L.Acyclic v) :
    L.KeepsStack v below ↔ L.HasSlots v (below.length + 1) L.stacksize := by
  constructor
  · rintro ⟨least, pvar, S', hkeeps⟩ k hk
    by_contra hover
    obtain ⟨hread, -⟩ := hkeeps least (Nat.le_refl least)
    have hnone := hk.overflows hin (Nat.lt_of_not_le hover) least
    rw [withSize_self, hread] at hnone
    cases hnone
  · intro hslots
    obtain ⟨pvar, least, hreads⟩ := hacyclic.reads
    obtain ⟨S', -, hread⟩ := hreads below L.stacksize hin hslots
    refine ⟨least, pvar, S', fun fuel hfuel => ⟨hread fuel hfuel, fun call strName hglobal =>
      getLuaObject_eq hin hglobal (hread fuel hfuel), ?_⟩⟩
    rintro t key before rest bottom rfl hentries
    have hentries' : ((L.withSize S').tables t).entries = before ++ (key, v) :: rest := hentries
    rw [pop_one, Option.bind_some]
    exact next_eq (LuaTable.next_of_entries hentries')

/-- A table with a table in it and a key that ends the iteration. -/
def nestedTable : LuaTable where
  entries := [(.string [97], .table 1), (.boolean true, .number 0), (.string [98], .table 1)]
  metatable := none
  valid := by decide
  apart := by decide

/-- A state with that table. -/
def nestedState : LuaState where
  stack := []
  tables t := if t = 0 then nestedTable else .empty
  userdata _ := ⟨none, none⟩
  typeMetatable _ := none
  globals := 2
  registry := 3
  tableCount := 4
  userdataCount := 0

/-- In that state a table has a lower number than what is nested in it, if there is anything. -/
theorem nestedState_depth : nestedState.Depth 2 (.table 0) := by
  have hvalue : ∀ e ∈ nestedTable.entries, e.2 = .table 1 ∨ e.2 = .number 0 := by decide
  intro t ht e he t' ht' f hf
  obtain rfl := LuaValue.table.inj ht
  rcases hvalue e he with h | h
  · obtain rfl := LuaValue.table.inj (h.symm.trans ht')
    cases hf
  · cases h.symm.trans ht'

theorem keepsStack_iff_hasSlots_nested : nestedState.KeepsStack (.table 0) [] :=
  (keepsStack_iff_hasSlots nestedState (.table 0) [] (by decide) nestedState_depth.acyclic).mpr
    (hasSlots_of_depth nestedState_depth (by decide) (by decide) (by decide))

/-! ## Tables nested too deep -/

/-- A table with the next one in it. -/
def linkTo (t : Nat) : LuaTable where
  entries := [(.string [97], .table t)]
  metatable := none
  valid e he := by
    have hkey : (LuaValue.string [97]).IsKey := by decide
    rw [List.mem_singleton.mp he]
    exact ⟨hkey, LuaValue.noConfusion⟩
  apart := List.pairwise_singleton _ _

/-- A new state with a chain of that many tables. -/
def chainState (n : Nat) : LuaState where
  stack := []
  tables t := if t < n then linkTo (t + 1) else .empty
  userdata _ := ⟨none, none⟩
  typeMetatable _ := none
  globals := n + 1
  registry := n + 2
  tableCount := n + 3
  userdataCount := 0

theorem chainState_tables {n t : Nat} (h : t < n) : (chainState n).tables t = linkTo (t + 1) :=
  if_pos h

theorem chainState_acyclic (n : Nat) (v : LuaValue) : (chainState n).Acyclic v := by
  refine acyclic_of_rank (fun t => n - t) (fun t e he t' ht' => ?_) v
  by_cases h : t < n
  · rw [chainState_tables h] at he
    rw [List.mem_singleton.mp he] at ht'
    rw [← LuaValue.table.inj ht']
    omega
  · have hempty : (chainState n).tables t = .empty := if_neg h
    rw [hempty] at he
    cases he

theorem chainState_pushes (n j t : Nat) (h : t + j = n) :
    (chainState n).Pushes (.table t) (2 * j + 1) := by
  induction j generalizing t with
  | zero => exact .field t
  | succ j ih =>
    have htables := chainState_tables (show t < n by omega)
    refine .nested (e := (.string [97], .table (t + 1))) ?_ ?_ (ih (t + 1) (by omega))
    · rw [rawget, htables]
      rfl
    · rw [htables]
      exact .head _

/-- The array grows only while it is short. -/
theorem grownSize_le (L : LuaState) (m S : Nat) :
    L.grownSize m S ≤ max S (2 * (L.base + luaiMaxCStack + 9)) := by
  by_cases h : m < luaiMaxCStack
  · have hchecked : L.checkedSize m S ≤ max S (2 * (L.base + luaiMaxCStack + 9)) := by
      unfold checkedSize
      split <;> omega
    have hle := L.grownSize_le (m + 2) (L.checkedSize m S)
    rw [grownSize_of_lt h]
    omega
  · rw [grownSize_of_le (Nat.le_of_not_lt h)]
    exact Nat.le_max_left _ _
termination_by luaiMaxCStack - m

/-- In a new state, 8100 tables in one another are acyclic, and their reading does not return. -/
theorem deep_tables_overflow : (chainState 8100).base + 0 + 1 ≤ (chainState 8100).stacksize ∧
    (chainState 8100).Acyclic (.table 0) ∧ ¬(chainState 8100).KeepsStack (.table 0) [] := by
  have hover : ∀ below : List LuaValue, below = [] →
      (chainState 8100).grownSize (below.length + 1) 45 <
        (chainState 8100).base + (below.length + 1) + (2 * 8100 + 1) := by
    rintro below rfl
    have hle := (chainState 8100).grownSize_le 1 45
    have hbase : (chainState 8100).base = 1 := rfl
    rw [hbase, luaiMaxCStack] at hle
    rw [hbase, List.length_nil, Nat.zero_add]
    omega
  refine ⟨by decide, chainState_acyclic 8100 _, ?_⟩
  rintro ⟨least, pvar, S', hkeeps⟩
  obtain ⟨hread, -⟩ := hkeeps least (Nat.le_refl least)
  have hnone : getLuaObjectFromStack least ((chainState 8100).withStack [.table 0]) (-1) = none :=
    (chainState_pushes 8100 8100 0 rfl).overflows (S := 45) (by decide) (hover [] rfl) least
  rw [hread] at hnone
  cases hnone

end LuaState

end MmDriver
