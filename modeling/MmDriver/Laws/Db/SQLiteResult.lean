import MmDriver.Db.SQLiteResult

/-!
# Where an extraction reads

The cursors stay inside the table in every run, so every look at the array is inside it. Behind a
`set_result` they are functions of the calls: the row is the number of fetches, up to the number of
rows, and the column the number of extractions since the last fetch of a row, up to the number of
columns.
-/

namespace MmDriver.SQLiteResult

/-- The step of an extraction is that of every type. -/
theorem step_extraction {β : Type} (s : SQLiteResult) (convert : List UInt8 → β → β) (val : β) :
    s.step .extraction =
      ((extract convert s val).obj, .looked (extract convert s val).access) := by
  rw [step, extract, extract]
  split
  · rfl
  · rfl

/-! ## In every run -/

/-- The cursors are inside a table of that shape. -/
structure InTable (s : SQLiteResult) (cells : List SQLiteCell) : Prop where
  length_cells : cells.length = (s.rowCount + 1) * s.colCount
  row_le : s.currentRow ≤ s.rowCount
  col_le : s.currentCol ≤ s.colCount
  rows_lt : s.rowCount < 2 ^ 31
  cols_lt : s.colCount < 2 ^ 31

/-- The object is new, or its cursors are inside its table. -/
def Sound (s : SQLiteResult) : Prop := s = new ∨ ∃ cells, s.result = some cells ∧ InTable s cells

variable {s : SQLiteResult} {cells : List SQLiteCell}

theorem setResult_eq (s : SQLiteResult) (result : List SQLiteCell) (rowCount colCount : Nat) :
    s.setResult result rowCount colCount = ⟨some result, rowCount, colCount, 0, 0⟩ := by
  rw [setResult]

theorem inTable_setResult (s : SQLiteResult) (t : Table) :
    InTable (s.setResult t.cells t.rows t.cols) t.cells := by
  rw [setResult_eq]
  exact ⟨t.length_cells, Nat.zero_le _, Nat.zero_le _, t.rows_lt, t.cols_lt⟩

/-- The index of a cell in the table does not wrap. -/
theorem InTable.currentIndex_eq (h : InTable s cells) :
    s.currentIndex = s.currentRow * s.colCount + s.currentCol := by
  have hrow := h.row_le
  have hcol := h.col_le
  have hrows := h.rows_lt
  have hcols := h.cols_lt
  have hproduct : s.currentRow * s.colCount ≤ (2 ^ 31 - 1) * (2 ^ 31 - 1) :=
    Nat.mul_le_mul (by omega) (by omega)
  rw [currentIndex, Nat.mod_eq_of_lt (Nat.lt_of_le_of_lt hproduct (by decide)),
    SizeT.add_eq (by omega)]

/-- An extraction with a column left looks at a cell of the table. -/
theorem InTable.index_lt (h : InTable s cells) (hcol : s.currentCol < s.colCount) :
    s.currentIndex < cells.length := by
  rw [h.currentIndex_eq, h.length_cells]
  calc s.currentRow * s.colCount + s.currentCol
      < s.currentRow * s.colCount + s.colCount := Nat.add_lt_add_left hcol _
    _ = (s.currentRow + 1) * s.colCount := (Nat.succ_mul _ _).symm
    _ ≤ (s.rowCount + 1) * s.colCount :=
        Nat.mul_le_mul_right _ (Nat.succ_le_succ h.row_le)

/-- What an extraction does, of any type. -/
theorem InTable.extract_eq {β : Type} (h : InTable s cells) (convert : List UInt8 → β → β)
    (val : β) :
    extract convert s val =
      if s.currentCol < s.colCount then
        ⟨{ s with currentCol := s.currentCol + 1 },
          converted convert
            (CellAccess.mk s.result (s.currentRow * s.colCount + s.currentCol)).cell val,
          some ⟨s.result, s.currentRow * s.colCount + s.currentCol⟩⟩
      else ⟨s, val, none⟩ := by
  have hcols := h.cols_lt
  rw [extract]
  by_cases hcol : s.currentCol < s.colCount
  · rw [if_pos ⟨h.row_le, hcol⟩, if_pos hcol, h.currentIndex_eq, SizeT.add_eq (by omega)]
  · rw [if_neg fun hboth => hcol hboth.2, if_neg hcol]

/-- What a fetch does. -/
theorem InTable.fetchNextRow_eq (h : InTable s cells) (hresult : s.result = some cells) :
    s.fetchNextRow =
      if s.currentRow < s.rowCount then
        (true, { s with currentRow := s.currentRow + 1, currentCol := 0 })
      else (false, s) := by
  have hrows := h.rows_lt
  rw [fetchNextRow, hresult, Option.isSome_some, if_pos rfl]
  by_cases hrow : s.currentRow < s.rowCount
  · rw [if_pos hrow, if_pos hrow, SizeT.add_eq (by omega)]
  · rw [if_neg hrow, if_neg hrow]

theorem freeResult_of_some (h : s.result = some cells) : s.freeResult = new := by
  rw [freeResult, h, Option.isSome_some, if_pos rfl]

/-- A new object does nothing until it is given a result. -/
theorem extract_new {β : Type} (convert : List UInt8 → β → β) (val : β) :
    extract convert new val = ⟨new, val, none⟩ := by
  rw [extract, if_neg fun h => Nat.not_lt_zero _ h.2]

/-- Every call keeps the cursors inside. -/
theorem Sound.step (h : Sound s) (c : Call) : Sound (s.step c).1 := by
  cases c with
  | setResult t =>
    refine .inr ⟨t.cells, ?_, inTable_setResult s t⟩
    rw [SQLiteResult.step, setResult_eq]
  | freeResult =>
    left
    rcases h with rfl | ⟨cells, hresult, -⟩
    · rfl
    · exact freeResult_of_some hresult
  | fetchNextRow =>
    rcases h with rfl | ⟨cells, hresult, hin⟩
    · exact .inl rfl
    · refine .inr ⟨cells, ?_⟩
      rw [SQLiteResult.step, hin.fetchNextRow_eq hresult]
      split
      · next hrow =>
        exact ⟨hresult, hin.length_cells, hrow, Nat.zero_le _, hin.rows_lt, hin.cols_lt⟩
      · exact ⟨hresult, hin⟩
  | extraction =>
    rcases h with rfl | ⟨cells, hresult, hin⟩
    · left
      rw [SQLiteResult.step, extract_new]
    · refine .inr ⟨cells, ?_⟩
      rw [SQLiteResult.step, hin.extract_eq]
      split
      · next hcol =>
        exact ⟨hresult, hin.length_cells, hin.row_le, hcol, hin.rows_lt, hin.cols_lt⟩
      · exact ⟨hresult, hin⟩

theorem sound_run (h : Sound s) (calls : List Call) : Sound (s.run calls) := by
  induction calls generalizing s with
  | nil => exact h
  | cons c calls ih => exact ih (h.step c)

/-- What an extraction looks at is inside the array. -/
theorem Sound.inside {β : Type} (h : Sound s) (convert : List UInt8 → β → β) (val : β) :
    ∀ access ∈ (extract convert s val).access, access.Inside := by
  rcases h with rfl | ⟨cells, hresult, hin⟩
  · rw [extract_new]
    intro access haccess
    cases haccess
  · rw [hin.extract_eq]
    split
    · next hcol =>
      intro access haccess
      cases haccess
      refine ⟨cells, hresult, ?_⟩
      rw [← hin.currentIndex_eq]
      exact hin.index_lt hcol
    · intro access haccess
      cases haccess

/-! ## Behind a `set_result` -/

/-- The calls that leave the result. -/
def Call.IsReading : Call → Prop
  | .fetchNextRow | .extraction => True
  | .setResult _ | .freeResult => False

/-- How often a row is asked for. -/
def fetches (calls : List Call) : Nat :=
  calls.countP fun
    | .fetchNextRow => true
    | _ => false

/-- How often a cell is asked for. -/
def extractions (calls : List Call) : Nat :=
  calls.countP fun
    | .extraction => true
    | _ => false

/-- How often a row was got. -/
def rowsGot (s : SQLiteResult) (calls : List Call) : Nat := (s.answers calls).count (.fetched true)

/-- The object behind a `set_result` of the table: its cursors are in that row and column. -/
structure At (t : Table) (row col : Nat) (s : SQLiteResult) : Prop where
  result : s.result = some t.cells
  rowCount : s.rowCount = t.rows
  colCount : s.colCount = t.cols
  currentRow : s.currentRow = row
  currentCol : s.currentCol = col
  row_le : row ≤ t.rows
  col_le : col ≤ t.cols

section At

variable {t : Table} {row col : Nat}

theorem at_setResult (s : SQLiteResult) (t : Table) :
    At t 0 0 (s.setResult t.cells t.rows t.cols) := by
  rw [setResult_eq]
  exact ⟨rfl, rfl, rfl, rfl, rfl, Nat.zero_le _, Nat.zero_le _⟩

theorem At.inTable (h : At t row col s) : InTable s t.cells := by
  refine ⟨?_, ?_, ?_, ?_, ?_⟩
  · rw [h.rowCount, h.colCount]
    exact t.length_cells
  · rw [h.currentRow, h.rowCount]
    exact h.row_le
  · rw [h.currentCol, h.colCount]
    exact h.col_le
  · rw [h.rowCount]
    exact t.rows_lt
  · rw [h.colCount]
    exact t.cols_lt

/-- A fetch goes to the next row, as long as there is one. -/
theorem At.fetchNextRow (h : At t row col s) :
    s.fetchNextRow.1 = decide (row < t.rows) ∧
      (row < t.rows → At t (row + 1) 0 s.fetchNextRow.2) ∧
      (¬row < t.rows → s.fetchNextRow.2 = s) := by
  rw [h.inTable.fetchNextRow_eq h.result, h.currentRow, h.rowCount]
  by_cases hrow : row < t.rows
  · rw [if_pos hrow]
    exact ⟨(decide_eq_true hrow).symm,
      fun _ => ⟨h.result, rfl, h.colCount, rfl, rfl, hrow, Nat.zero_le _⟩,
      fun hnot => absurd hrow hnot⟩
  · rw [if_neg hrow]
    exact ⟨(decide_eq_false hrow).symm, fun hyes => absurd hyes hrow, fun _ => rfl⟩

/-- An extraction reads the column it is at, as long as there is one. -/
theorem At.extract {β : Type} (h : At t row col s) (convert : List UInt8 → β → β) (val : β) :
    (col < t.cols → At t row (col + 1) (extract convert s val).obj ∧
        (SQLiteResult.extract convert s val).val = converted convert (t.data row (col + 1)) val ∧
        (SQLiteResult.extract convert s val).access =
          some ⟨some t.cells, row * t.cols + col⟩) ∧
      (¬col < t.cols → SQLiteResult.extract convert s val = ⟨s, val, none⟩) := by
  rw [h.inTable.extract_eq, h.currentCol, h.colCount, h.currentRow, h.result]
  by_cases hcol : col < t.cols
  · rw [if_pos hcol]
    exact ⟨fun _ => ⟨⟨rfl, h.rowCount, rfl, rfl, rfl, h.row_le, hcol⟩, rfl, rfl⟩,
      fun hnot => absurd hcol hnot⟩
  · rw [if_neg hcol]
    exact ⟨fun hyes => absurd hyes hcol, fun _ => rfl⟩

theorem run_append (s : SQLiteResult) (before behind : List Call) :
    s.run (before ++ behind) = (s.run before).run behind := List.foldl_append

theorem rowsGot_cons (s : SQLiteResult) (c : Call) (calls : List Call) :
    rowsGot s (c :: calls) =
      rowsGot (s.step c).1 calls + if (s.step c).2 = .fetched true then 1 else 0 := by
  rw [rowsGot, answers, List.count_cons, rowsGot]
  simp only [beq_iff_eq]

/-- Behind a list of reading calls: the row is the number of fetches, as far as there are rows, and
so many fetches got one. -/
theorem At.run_rows (h : At t row col s) {calls : List Call} (hreading : ∀ c ∈ calls, c.IsReading) :
    (∃ col', At t (min (row + fetches calls) t.rows) col' (s.run calls)) ∧
      rowsGot s calls = min (fetches calls) (t.rows - row) := by
  induction calls generalizing s row col with
  | nil =>
    rw [fetches, List.countP_nil, Nat.add_zero, Nat.min_eq_left h.row_le, Nat.zero_min]
    exact ⟨⟨col, h⟩, rfl⟩
  | cons c calls ih =>
    have hrest : ∀ c ∈ calls, c.IsReading := fun c hc => hreading c (.tail _ hc)
    cases c with
    | setResult t => exact (hreading _ (.head _)).elim
    | freeResult => exact (hreading _ (.head _)).elim
    | fetchNextRow =>
      have hle := h.row_le
      obtain ⟨hret, hnext, hlast⟩ := h.fetchNextRow
      have hfetches : fetches (.fetchNextRow :: calls) = fetches calls + 1 :=
        List.countP_cons_of_pos rfl
      rw [rowsGot_cons, hfetches, step, hret]
      by_cases hrow : row < t.rows
      · obtain ⟨⟨col', hat⟩, hgot⟩ := ih (hnext hrow) hrest
        refine ⟨⟨col', ?_⟩, ?_⟩
        · rw [Nat.add_comm (fetches calls), ← Nat.add_assoc]
          exact hat
        · rw [hgot, decide_eq_true hrow, if_pos rfl]
          omega
      · obtain ⟨⟨col', hat⟩, hgot⟩ := ih h hrest
        have hend : row = t.rows := by omega
        rw [hlast hrow]
        refine ⟨⟨col', ?_⟩, ?_⟩
        · rw [← Nat.add_assoc, Nat.min_eq_right (by omega)]
          rw [Nat.min_eq_right (by omega)] at hat
          have hrun : s.run (.fetchNextRow :: calls) = (s.fetchNextRow.2).run calls := rfl
          rw [hrun, hlast hrow]
          exact hat
        · rw [hgot, decide_eq_false hrow, if_neg (by simp)]
          omega
    | extraction =>
      have hfetches : fetches (.extraction :: calls) = fetches calls :=
        List.countP_cons_of_neg (by simp)
      have hstep := step_extraction s (fun _ (_ : Unit) => ()) ()
      have hafter : ∃ col', At t row col' (s.step .extraction).1 := by
        obtain ⟨hread, hpast⟩ := h.extract (fun _ (_ : Unit) => ()) ()
        rw [hstep]
        by_cases hcol : col < t.cols
        · exact ⟨col + 1, (hread hcol).1⟩
        · rw [hpast hcol]
          exact ⟨col, h⟩
      obtain ⟨col', hat⟩ := hafter
      obtain ⟨hrun, hgot⟩ := ih hat hrest
      rw [rowsGot_cons, hfetches, hgot, hstep, if_neg (by simp)]
      exact ⟨hrun, rfl⟩

/-- In one row: the column is the number of extractions, as far as there are columns. A fetch
behind the last row changes nothing. -/
theorem At.run_cols (h : At t row col s) {calls : List Call} (hreading : ∀ c ∈ calls, c.IsReading)
    (hrow : row = t.rows ∨ fetches calls = 0) :
    At t row (min (col + extractions calls) t.cols) (s.run calls) := by
  induction calls generalizing s col with
  | nil =>
    rw [extractions, List.countP_nil, Nat.add_zero, Nat.min_eq_left h.col_le]
    exact h
  | cons c calls ih =>
    have hrest : ∀ c ∈ calls, c.IsReading := fun c hc => hreading c (.tail _ hc)
    cases c with
    | setResult t => exact (hreading _ (.head _)).elim
    | freeResult => exact (hreading _ (.head _)).elim
    | fetchNextRow =>
      have hfetches : fetches (.fetchNextRow :: calls) = fetches calls + 1 :=
        List.countP_cons_of_pos rfl
      have hextractions : extractions (.fetchNextRow :: calls) = extractions calls :=
        List.countP_cons_of_neg (by simp)
      have hend : row = t.rows := hrow.resolve_right (by omega)
      have hrun : s.run (.fetchNextRow :: calls) = (s.fetchNextRow.2).run calls := rfl
      rw [hrun, h.fetchNextRow.2.2 (by omega), hextractions]
      exact ih h hrest (.inl hend)
    | extraction =>
      have hfetches : fetches (.extraction :: calls) = fetches calls :=
        List.countP_cons_of_neg (by simp)
      have hextractions : extractions (.extraction :: calls) = extractions calls + 1 :=
        List.countP_cons_of_pos rfl
      have hrun : s.run (.extraction :: calls) = (s.step .extraction).1.run calls := rfl
      obtain ⟨hread, hpast⟩ := h.extract (fun _ (_ : Unit) => ()) ()
      rw [hfetches] at hrow
      rw [hrun, step_extraction s (fun _ (_ : Unit) => ()) (), hextractions]
      by_cases hcol : col < t.cols
      · have hat := ih (hread hcol).1 hrest hrow
        rw [Nat.add_comm (extractions calls), ← Nat.add_assoc]
        exact hat
      · have hat := ih h hrest hrow
        rw [Nat.min_eq_right (by omega)] at hat
        rw [hpast hcol, Nat.min_eq_right (by omega)]
        exact hat

end At

/-- In every run, what an extraction looks at is inside the array. Behind a `set_result` the fetches
that get a row are the first ones, one for each row of the table; behind the `i`-th of them the
`k`-th extraction reads the data cell of row `i` and column `k`, and changes nothing where there is
no such column. -/
theorem cursor_reads_cells {β : Type} (convert : List UInt8 → β → β) (val : β)
    (before : List Call) (t : Table) (calls : List Call) (hreading : ∀ c ∈ calls, c.IsReading) :
    (∀ access ∈ (extract convert (new.run before) val).access, access.Inside) ∧
      rowsGot (new.run (before ++ [.setResult t])) calls = min (fetches calls) t.rows ∧
      (new.run (before ++ .setResult t :: calls)).fetchNextRow.1 =
        decide (fetches calls < t.rows) ∧
      ∀ behind : List Call, (∀ c ∈ behind, c.IsReading) → ∀ i k : Nat,
        fetches calls + 1 = i → i ≤ t.rows → (i = t.rows ∨ fetches behind = 0) →
        extractions behind + 1 = k →
        let s := new.run (before ++ .setResult t :: calls ++ .fetchNextRow :: behind)
        if k ≤ t.cols then
          (extract convert s val).val = converted convert (t.data i k) val ∧
            (extract convert s val).access = some ⟨some t.cells, i * t.cols + (k - 1)⟩
        else extract convert s val = ⟨s, val, none⟩ := by
  have hset := at_setResult (new.run before) t
  have hstart : new.run (before ++ [.setResult t]) =
      (new.run before).setResult t.cells t.rows t.cols := run_append _ _ _
  have hsplit : new.run (before ++ .setResult t :: calls) =
      ((new.run before).setResult t.cells t.rows t.cols).run calls := run_append _ _ _
  obtain ⟨⟨col, hat⟩, hgot⟩ := hset.run_rows hreading
  rw [Nat.zero_add] at hat
  refine ⟨(sound_run (.inl rfl) before).inside convert val, ?_, ?_, ?_⟩
  · rw [hstart, hgot, Nat.sub_zero]
  · rw [hsplit, hat.fetchNextRow.1]
    exact decide_eq_decide.mpr (by omega)
  · intro behind hbehind i k hi hile hlast hk
    rw [Nat.min_eq_left (by omega)] at hat
    have hrow := hat.fetchNextRow.2.1 (by omega)
    rw [hi] at hrow
    have hend := hrow.run_cols hbehind hlast
    rw [Nat.zero_add] at hend
    have hrun : new.run (before ++ .setResult t :: calls ++ .fetchNextRow :: behind) =
        ((((new.run before).setResult t.cells t.rows t.cols).run calls).fetchNextRow.2).run
          behind := by
      rw [run_append, hsplit]
      rfl
    rw [hrun]
    dsimp only
    split
    · next hcol =>
      rw [Nat.min_eq_left (by omega)] at hend
      obtain ⟨-, hval, haccess⟩ := (hend.extract convert val).1 (by omega)
      rw [hk] at hval
      exact ⟨hval, by rw [haccess, ← hk, Nat.add_sub_cancel]⟩
    · rw [Nat.min_eq_right (by omega)] at hend
      exact (hend.extract convert val).2 (Nat.lt_irrefl _)

/-- A table of one row, with a number and a null. -/
def onePair : Table where
  rows := 1
  cols := 2
  cells := [some [105], some [100], some [55], none]
  rows_lt := by decide
  cols_lt := by decide
  length_cells := rfl

/-- The null leaves the value. -/
theorem cursor_reads_cells_pair :
    let s := new.run [.setResult onePair, .fetchNextRow, .extraction]
    (extract (fun text _ => atoi text) s 9).val = 9 ∧
      (extract (fun text _ => atoi text) s 9).access = some ⟨some onePair.cells, 3⟩ :=
  have hempty : ∀ c ∈ ([] : List Call), c.IsReading :=
    fun _ h => absurd h List.not_mem_nil
  have hone : ∀ c ∈ [Call.extraction], c.IsReading :=
    fun _ h => (List.mem_singleton.mp h).symm ▸ trivial
  (cursor_reads_cells (fun text _ => atoi text) 9 [] onePair [] hempty).2.2.2 [.extraction] hone
    1 2 rfl (by decide) (.inl rfl) rfl

end MmDriver.SQLiteResult
