import Mathlib.Data.Nat.Digits.Lemmas
import Mathlib.Logic.Function.Basic
import MmDriver.Test.DBCharacter

/-!
# A title that is saved and loaded

The bytes of a title go through a blob array, an escaped text, a statement of bounded length and a
row. `Documented` and `Serves` say what of the client library and of the server this rests on, the
second for the statements of one character.

The code takes a wrong turn for three lengths of a title: nothing is decoded from an empty column, a
title as long as the array is ended behind it, and behind a longer one the array's old bytes are
saved. `savesTitle_iff` says that these are all.
-/

namespace MmDriver

open ByteMem

/-! ## Strings -/

theorem cString_copy {bytes : List UInt8} (hnul : 0 ∉ bytes) (m : Memory) (a : Nat) {size : Nat}
    (hsize : bytes.length < size) :
    cString (copy m a (ofList (bytes ++ [0])) (bytes.length + 1)) a size = bytes := by
  obtain ⟨k, rfl⟩ := Nat.exists_eq_add_of_lt hsize
  have hfront : slice (copy m a (ofList (bytes ++ [0])) (bytes.length + 1)) a (bytes.length + 1) =
      bytes ++ [0] := by
    have hcopied := slice_copy_inside m a (bytes ++ [0])
    rwa [List.length_append, List.length_singleton] at hcopied
  have hsplit : bytes.length + k + 1 = bytes.length + 1 + k := by omega
  have hpos : ∀ b ∈ bytes, decide (b ≠ 0) = true := by
    rintro b hb
    exact decide_eq_true fun hzero => hnul (hzero ▸ hb)
  rw [cString, hsplit, slice_add, hfront, List.append_assoc, List.takeWhile_append_of_pos hpos,
    List.singleton_append, List.takeWhile_cons_of_neg (by simp), List.append_nil]

/-- What was escaped into an array with room for it is the string there. -/
theorem MysqlHandler.cString_makeRealEscapeString {δ : Type} {api : MysqlApi δ}
    {src : List UInt8} (hnul : 0 ∉ api.realEscapeString src) (m : Memory) (a : Nat) {size : Nat}
    (hsize : (api.realEscapeString src).length < size) :
    cString (makeRealEscapeString api m a src).mem a size = api.realEscapeString src :=
  cString_copy hnul m a hsize

theorem sqlDecimal_length {n k : Nat} (hk : k ≠ 0) (hn : n < 10 ^ k) :
    (sqlDecimal n).length ≤ k := by
  rw [sqlDecimal]
  split
  · exact Nat.one_le_iff_ne_zero.mpr hk
  · rw [List.length_map, List.length_reverse]
    exact (Nat.digits_length_le_iff (by decide) n).mpr hn

/-! ## What is relied on -/

variable {δ τ : Type}

/-- The valid rows of `t_char`, by `charguid`: the name and the title. -/
abbrev CharRows (δ : Type) := δ → Nat → Option (List UInt8 × List UInt8)

/-- Escaping takes at most two bytes for one and leaves no NUL, and a connection changes no row. -/
structure MysqlApi.Documented (api : MysqlApi δ) (rows : CharRows δ) : Prop where
  escape_length : ∀ src, (api.realEscapeString src).length ≤ 2 * src.length
  escape_no_nul : ∀ src, 0 ∉ api.realEscapeString src
  connect_rows : ∀ db, rows (api.realConnect db).1 = rows db
  ping_rows : ∀ db, rows (api.ping db).1 = rows db

/-- The insert of a character, with its strings escaped. -/
def MysqlApi.charInsert (api : MysqlApi δ) (charguid : Nat) (name title : List UInt8) : List UInt8 :=
  DBCharService.insertChar charguid (api.realEscapeString name) (api.realEscapeString name)
    (api.realEscapeString title)

/-- What the server does with the statements about the character `charguid`: the insert, with its
escaping undone, is taken where there is no such row, or else refused; a part of it is refused; and
a stored row is returned as it is. -/
structure MysqlApi.Serves (api : MysqlApi δ) (rows : CharRows δ) (charguid : Nat)
    (name title : List UInt8) : Prop where
  taken : ∀ db, (api.realQuery db (api.charInsert charguid name title)).2 ≠ none →
    rows db charguid = none ∧ rows (api.realQuery db (api.charInsert charguid name title)).1 =
      Function.update (rows db) charguid (some (name, title))
  refused : ∀ db, (api.realQuery db (api.charInsert charguid name title)).2 = none →
    rows (api.realQuery db (api.charInsert charguid name title)).1 = rows db
  cut : ∀ db part, part <+: api.charInsert charguid name title →
    part ≠ api.charInsert charguid name title →
    (api.realQuery db part).2 = none ∧ rows (api.realQuery db part).1 = rows db
  skill : ∀ db, rows (api.realQuery db (DBCharService.insertCharSkill charguid)).1 = rows db
  returned : ∀ db, rows db charguid = some (name, title) → (api.ping db).2 = true ∧
    (api.realQuery (api.ping db).1 (DBCharService.selectChar charguid)).2 =
      some ⟨[[some name, some title]], 2, 1⟩

/-! ## A statement -/

namespace MysqlHandler

variable {api : MysqlApi δ} {rows : CharRows δ}

theorem reach_rows (hdoc : api.Documented rows) (h : MysqlHandler) (db : δ) :
    rows (h.reach api db).2.1 = rows db := by
  rw [reach]
  split
  · exact hdoc.connect_rows db
  · exact hdoc.ping_rows db

/-- What was reached was connected. -/
theorem reach_connected (h : MysqlHandler) (db : δ) (hreach : (h.reach api db).2.2 = true) :
    (h.reach api db).1.isConnected = true := by
  rw [reach] at hreach ⊢
  split at hreach
  · next hnot => rwa [if_pos hnot]
  · next hnot =>
    rw [if_neg hnot]
    exact Bool.eq_true_of_not_eq_false hnot

theorem execute_rows (hdoc : api.Documented rows) (h : MysqlHandler) (db : δ) {sql : List UInt8}
    (hsql : ∀ db, rows (api.realQuery db sql).1 = rows db) :
    rows (h.execute api db sql).db = rows db := by
  rw [execute]
  split
  · exact reach_rows hdoc h db
  · exact (hsql _).trans (reach_rows hdoc h db)

/-- A statement succeeds where the server is reached and takes it. -/
theorem execute_ret (h : MysqlHandler) (db : δ) (sql : List UInt8) :
    (h.execute api db sql).ret = true ↔
      (h.reach api db).2.2 = true ∧ (api.realQuery (h.reach api db).2.1 sql).2 ≠ none := by
  rw [execute]
  split
  · next hnot => exact iff_of_false Bool.false_ne_true fun hboth => by simp [hnot] at hboth
  · next hreach =>
    rw [and_iff_right (Bool.eq_true_of_not_eq_false hreach), ← Option.isSome_iff_ne_none]

theorem execute_handler (h : MysqlHandler) (db : δ) (sql : List UInt8) :
    (h.execute api db sql).handler = (h.reach api db).1 := by
  rw [execute]
  split
  · rfl
  · rfl

/-- A handler that is connected asks the server whether it is there. -/
theorem reach_of_connected (h : MysqlHandler) (db : δ) (hconnected : h.isConnected = true) :
    h.reach api db = (h, api.ping db) := by
  rw [reach, if_neg (by rw [hconnected]; decide)]

/-- A text that fits is sent as it is. -/
theorem executeSQL_makeSqlString (h : MysqlHandler) (db : δ) {text : List UInt8}
    (hfits : text.length < maxSqlStringLength) :
    (h.makeSqlString text).executeSQL api db = (h.makeSqlString text).execute api db text := by
  have hwhole : (h.makeSqlString text).szSQL = text :=
    List.take_of_length_le (Nat.le_sub_one_of_lt hfits)
  rw [executeSQL, hwhole]

end MysqlHandler

/-! ## The insert -/

namespace DBCharService

open MysqlHandler

variable {api : MysqlApi δ} {rows : CharRows δ} {codec : TitleCodec τ}

/-- The bytes that are saved: the title's, or what the array holds when they are too many. -/
def saved (codec : TitleCodec τ) (svc : DBCharService δ) (rkCharData : CharData τ) : List UInt8 :=
  if maxBlobInfoLength < (codec.serialize rkCharData.titleData).length then
    slice svc.mem BlobBuffer.szBlobBuff.base maxBlobInfoLength
  else codec.serialize rkCharData.titleData

theorem saved_length (codec : TitleCodec τ) (svc : DBCharService δ) (rkCharData : CharData τ) :
    (saved codec svc rkCharData).length ≤ maxBlobInfoLength := by
  rw [saved]
  split
  · exact Nat.le_of_eq (slice_length _ _ _)
  · next hle => exact Nat.le_of_not_lt hle

/-- The text of the statement. -/
def statement (api : MysqlApi δ) (codec : TitleCodec τ) (svc : DBCharService δ) (uiUserID : UInt32)
    (rkCharData : CharData τ) : List UInt8 :=
  api.charInsert uiUserID.toNat rkCharData.szCharName.bytes (saved codec svc rkCharData)

/-- The first statement of `CreateChar`. -/
def inserted (api : MysqlApi δ) (codec : TitleCodec τ) (svc : DBCharService δ) (uiUserID : UInt32)
    (rkCharData : CharData τ) : ExecuteResult δ :=
  (svc.kMysqlHandler.makeSqlString (statement api codec svc uiUserID rkCharData)).executeSQL api
    svc.db

/-- The statement fits, the server is reached, and it takes the statement. -/
def Taken (api : MysqlApi δ) (svc : DBCharService δ) (sql : List UInt8) : Prop :=
  sql.length < maxSqlStringLength ∧ (svc.kMysqlHandler.reach api svc.db).2.2 = true ∧
    (api.realQuery (svc.kMysqlHandler.reach api svc.db).2.1 sql).2 ≠ none

/-- What `EncodeBlob` leaves at the front of the array, up to the size it gives, is saved. -/
theorem encodeBlob_saved (codec : TitleCodec τ) (svc : DBCharService δ) (rkCharData : CharData τ) :
    let blob := encodeBlob codec rkCharData.titleData svc.mem BlobBuffer.szBlobBuff.base
      maxBlobInfoLength
    slice blob.mem BlobBuffer.szBlobBuff.base blob.usSize = saved codec svc rkCharData := by
  rw [encodeBlob, saved]
  split
  · rfl
  · dsimp only [storeByte]
    rw [slice_copy_outside (Or.inl (Nat.le_refl _))]
    exact slice_copy_inside svc.mem _ _

variable {svc : DBCharService δ} {uiUserID : UInt32} {rkCharData rkOther : CharData τ}

/-- The arrays after `CreateChar`. -/
def createMem (api : MysqlApi δ) (codec : TitleCodec τ) (svc : DBCharService δ)
    (rkCharData : CharData τ) : Memory :=
  (makeRealEscapeString api
    (encodeBlob codec rkCharData.titleData svc.mem BlobBuffer.szBlobBuff.base maxBlobInfoLength).mem
    BlobBuffer.szEscapedBlobBuff.base (saved codec svc rkCharData)).mem

/-- The writes of `CreateChar`. -/
def createWrites (api : MysqlApi δ) (codec : TitleCodec τ) (svc : DBCharService δ)
    (rkCharData : CharData τ) : List BlobWrite :=
  (encodeBlob codec rkCharData.titleData svc.mem BlobBuffer.szBlobBuff.base
      maxBlobInfoLength).writes.map (fun w => BlobWrite.mk .szBlobBuff w.1 w.2) ++
    [⟨.szEscapedBlobBuff, 0, (api.realEscapeString (saved codec svc rkCharData)).length + 1⟩]

/-- `CreateChar`, with what is escaped read back: its first statement is the insert. -/
theorem createChar_eq (hdoc : api.Documented rows) (svc : DBCharService δ) (uiUserID : UInt32)
    (rkCharData : CharData τ) :
    let r := inserted api codec svc uiUserID rkCharData
    let skill := (r.handler.makeSqlString (insertCharSkill uiUserID.toNat)).executeSQL api r.db
    createChar api codec svc uiUserID rkCharData =
      if r.ret = false then
        ⟨if api.errno r.db = erDupEntry then reLoginNameAlreadyUsed else reLoginCreateCharFail,
          ⟨r.handler, createMem api codec svc rkCharData, r.db⟩,
          createWrites api codec svc rkCharData⟩
      else
        ⟨reLoginCreateCharSuccess, ⟨skill.handler, createMem api codec svc rkCharData, skill.db⟩,
          createWrites api codec svc rkCharData⟩ := by
  have hname : (api.realEscapeString rkCharData.szCharName.bytes).length < 2 * charNameLength + 1 := by
    have hlen := rkCharData.szCharName.length_lt
    have hdouble := hdoc.escape_length rkCharData.szCharName.bytes
    omega
  have htitle : (api.realEscapeString (saved codec svc rkCharData)).length <
      BlobBuffer.szEscapedBlobBuff.size := by
    have hlen := saved_length codec svc rkCharData
    have hdouble := hdoc.escape_length (saved codec svc rkCharData)
    rw [BlobBuffer.size]
    omega
  have hbytes := encodeBlob_saved codec svc rkCharData
  dsimp only at hbytes ⊢
  rw [createChar]
  dsimp only
  rw [hbytes, cString_makeRealEscapeString (hdoc.escape_no_nul _) _ _ hname,
    cString_makeRealEscapeString (hdoc.escape_no_nul _) _ _ htitle]
  rfl

/-- The statement that is sent, and the state of the server it meets. -/
theorem inserted_eq (api : MysqlApi δ) (codec : TitleCodec τ) (svc : DBCharService δ)
    (uiUserID : UInt32) (rkCharData : CharData τ) :
    (inserted api codec svc uiUserID rkCharData) =
      (svc.kMysqlHandler.makeSqlString (statement api codec svc uiUserID rkCharData)).execute api
        svc.db ((statement api codec svc uiUserID rkCharData).take (maxSqlStringLength - 1)) := rfl

/-- The text does not change what is reached. -/
theorem reach_makeSqlString (api : MysqlApi δ) (h : MysqlHandler) (text : List UInt8) (db : δ) :
    ((h.makeSqlString text).reach api db).2 = (h.reach api db).2 := by
  have hsame : (h.makeSqlString text).isConnected = h.isConnected := rfl
  rw [reach, reach, hsame]
  split
  · rfl
  · rfl

/-- What is sent is the statement, or a part of it. -/
theorem statement_take (api : MysqlApi δ) (codec : TitleCodec τ) (svc : DBCharService δ)
    (uiUserID : UInt32) (rkCharData : CharData τ) :
    let text := statement api codec svc uiUserID rkCharData
    (text.length < maxSqlStringLength ∧ text.take (maxSqlStringLength - 1) = text) ∨
      (maxSqlStringLength ≤ text.length ∧ text.take (maxSqlStringLength - 1) ≠ text) := by
  dsimp only
  generalize statement api codec svc uiUserID rkCharData = text
  rcases Nat.lt_or_ge text.length maxSqlStringLength with hfits | hlong
  · exact .inl ⟨hfits, List.take_of_length_le (Nat.le_sub_one_of_lt hfits)⟩
  · refine .inr ⟨hlong, fun hwhole => ?_⟩
    have hlen := congrArg List.length hwhole
    have hpos : 0 < maxSqlStringLength := by decide
    rw [List.length_take] at hlen
    omega

theorem insertCharSkill_length (uiUserID : UInt32) :
    (insertCharSkill uiUserID.toNat).length < maxSqlStringLength := by
  have hdigits : (sqlDecimal uiUserID.toNat).length ≤ 10 :=
    sqlDecimal_length (by decide) (Nat.lt_of_lt_of_le uiUserID.toNat_lt (by decide))
  have hhead : (sqlText "insert into t_char_skill (charguid, isvalid) values (").length = 53 := rfl
  have htail : (sqlText ", 1)").length = 4 := rfl
  rw [insertCharSkill, List.length_append, List.length_append, hhead, htail, maxSqlStringLength]
  omega

section Insert

variable (hserves : api.Serves rows uiUserID.toNat rkCharData.szCharName.bytes
  (saved codec svc rkCharData))

include hserves

theorem inserted_ret : (inserted api codec svc uiUserID rkCharData).ret = true ↔
    Taken api svc (statement api codec svc uiUserID rkCharData) := by
  rw [inserted_eq, execute_ret, reach_makeSqlString, Taken]
  rcases statement_take api codec svc uiUserID rkCharData with ⟨hfits, hwhole⟩ | ⟨hlong, hcut⟩
  · rw [hwhole, and_iff_right hfits]
  · refine iff_of_false (fun hboth => ?_) fun htaken => Nat.not_lt_of_le hlong htaken.1
    exact hboth.2 (hserves.cut _ _ (List.take_prefix _ _) hcut).1

/-- What is sent is refused, and changes no row, or it puts the row there. -/
theorem sent_rows (db : δ) :
    let q := api.realQuery db
      ((statement api codec svc uiUserID rkCharData).take (maxSqlStringLength - 1))
    (q.2 = none ∧ rows q.1 = rows db) ∨
      (q.2 ≠ none ∧ rows db uiUserID.toNat = none ∧
        rows q.1 = Function.update (rows db) uiUserID.toNat
          (some (rkCharData.szCharName.bytes, saved codec svc rkCharData))) := by
  dsimp only
  rcases statement_take api codec svc uiUserID rkCharData with ⟨-, hwhole⟩ | ⟨-, hcut⟩
  · rw [hwhole]
    by_cases hrefused : (api.realQuery db (statement api codec svc uiUserID rkCharData)).2 = none
    · exact .inl ⟨hrefused, hserves.refused db hrefused⟩
    · exact .inr ⟨hrefused, hserves.taken db hrefused⟩
  · exact .inl (hserves.cut db _ (List.take_prefix _ _) hcut)

/-- The rows after the first statement. -/
theorem inserted_rows (hdoc : api.Documented rows) :
    let r := inserted api codec svc uiUserID rkCharData
    (r.ret = false ∧ rows r.db = rows svc.db) ∨
      (r.ret = true ∧ rows svc.db uiUserID.toNat = none ∧
        rows r.db = Function.update (rows svc.db) uiUserID.toNat
          (some (rkCharData.szCharName.bytes, saved codec svc rkCharData))) := by
  dsimp only
  rw [inserted_eq, execute]
  have hreach := reach_rows hdoc
    (svc.kMysqlHandler.makeSqlString (statement api codec svc uiUserID rkCharData)) svc.db
  split
  · exact .inl ⟨rfl, hreach⟩
  · have hsent := sent_rows hserves ((svc.kMysqlHandler.makeSqlString
      (statement api codec svc uiUserID rkCharData)).reach api svc.db).2.1
    rw [hreach] at hsent
    rcases hsent with ⟨hnone, hsame⟩ | ⟨hsome, hfree, hput⟩
    · exact .inl ⟨congrArg Option.isSome hnone, hsame⟩
    · exact .inr ⟨Option.isSome_iff_ne_none.mpr hsome, hfree, hput⟩

/-! ## Creating -/

/-- `CreateChar` succeeds where its insert is taken. -/
theorem createChar_ret (hdoc : api.Documented rows) :
    (createChar api codec svc uiUserID rkCharData).ret = reLoginCreateCharSuccess ↔
      Taken api svc (statement api codec svc uiUserID rkCharData) := by
  rw [← inserted_ret hserves, createChar_eq hdoc]
  split
  · next hfail =>
    refine iff_of_false ?_ fun hret => Bool.false_ne_true (hfail.symm.trans hret)
    dsimp only
    split
    · decide
    · decide
  · next hret => exact iff_of_true rfl (Bool.eq_true_of_not_eq_false hret)

/-- Where the insert is not taken, no row is written. -/
theorem createChar_refused (hdoc : api.Documented rows)
    (hnot : ¬Taken api svc (statement api codec svc uiUserID rkCharData)) :
    rows (createChar api codec svc uiUserID rkCharData).svc.db = rows svc.db := by
  rw [← inserted_ret hserves, Bool.not_eq_true] at hnot
  rw [createChar_eq hdoc, if_pos hnot]
  rcases inserted_rows hserves hdoc with ⟨-, hsame⟩ | ⟨hret, -⟩
  · exact hsame
  · exact absurd (hnot.symm.trans hret) Bool.false_ne_true

/-- Where it is taken, the row is there, which it was not before, and the connection stands. -/
theorem createChar_taken (hdoc : api.Documented rows)
    (htaken : Taken api svc (statement api codec svc uiUserID rkCharData)) :
    rows svc.db uiUserID.toNat = none ∧
      rows (createChar api codec svc uiUserID rkCharData).svc.db uiUserID.toNat =
        some (rkCharData.szCharName.bytes, saved codec svc rkCharData) ∧
      (createChar api codec svc uiUserID rkCharData).svc.kMysqlHandler.isConnected = true := by
  rw [← inserted_ret hserves] at htaken
  rw [createChar_eq hdoc, if_neg (by rw [htaken]; decide)]
  rcases inserted_rows hserves hdoc with ⟨hret, -⟩ | ⟨-, hfree, hput⟩
  · exact absurd (hret.symm.trans htaken) Bool.false_ne_true
  · -- the second statement changes no row of the first table
    have hconnected : (inserted api codec svc uiUserID rkCharData).handler.isConnected = true := by
      rw [inserted_eq, execute_ret] at htaken
      rw [inserted_eq, execute_handler]
      exact reach_connected _ _ htaken.1
    rw [executeSQL_makeSqlString _ _ (insertCharSkill_length uiUserID)]
    refine ⟨hfree, ?_, ?_⟩
    · rw [execute_rows hdoc _ _ hserves.skill, hput, Function.update_self]
    · have hskill : ((inserted api codec svc uiUserID rkCharData).handler.makeSqlString
          (insertCharSkill uiUserID.toNat)).isConnected = true := hconnected
      rw [execute_handler, reach_of_connected _ _ hskill]
      exact hconnected

end Insert

/-! ## Loading -/

/-- A title that was copied is decoded, and an empty one is not looked at. -/
theorem loadTitle_copied (codec : TitleCodec τ) (m : Memory) (title : List UInt8)
    (rkOther : CharData τ) :
    let r := loadTitle codec (copy m BlobBuffer.szBlobBuff.base (ofList title) title.length)
      title.length rkOther
    (r.1, r.2.titleData) =
      if title = [] then (true, rkOther.titleData)
      else codec.parseFromArray rkOther.titleData title := by
  dsimp only
  rw [loadTitle, decodeBlob, slice_copy_inside]
  cases title with
  | nil => rfl
  | cons b title => rfl

/-- A row is loaded: the name, and the title. -/
theorem loadRow_title (codec : TitleCodec τ) (handler : MysqlHandler) (m : Memory) (db : δ)
    {name title : List UInt8} (hlen : title.length ≤ maxBlobInfoLength) (rkOther : CharData τ) :
    let r := loadRow codec handler m db ⟨[], [some name, some title], 0, 2⟩ rkOther
    (r.ret, r.rkCharData.titleData) =
      if title = [] then (true, rkOther.titleData)
      else codec.parseFromArray rkOther.titleData title := by
  have hblob : (((⟨[], [some name, some title], 0, 2⟩ : MysqlResult).getString
      charNameLength).2.getBlob m BlobBuffer.szBlobBuff.base maxBlobInfoLength) =
      ⟨⟨[], [some name, some title], 1, 2⟩,
        copy m BlobBuffer.szBlobBuff.base (ofList title) title.length, title.length⟩ :=
    if_pos hlen
  dsimp only
  rw [loadRow]
  dsimp only
  rw [hblob]
  have htitle := loadTitle_copied codec m title (rkOther.withName
    ((⟨[], [some name, some title], 0, 2⟩ : MysqlResult).getString charNameLength).1)
  rwa [CharData.withName_titleData] at htitle

theorem selectChar_length (uCharGuid : UInt64) :
    (selectChar uCharGuid.toNat).length < maxSqlStringLength := by
  have hdigits : (sqlDecimal uCharGuid.toNat).length ≤ 20 :=
    sqlDecimal_length (by decide) (Nat.lt_of_lt_of_le uCharGuid.toNat_lt (by decide))
  have hhead : (sqlText "select charname,title from t_char where charguid=").length = 49 := rfl
  have htail : (sqlText " and isvalid=1").length = 14 := rfl
  rw [selectChar, List.length_append, List.length_append, hhead, htail, maxSqlStringLength]
  omega

/-- A row that is there is found. -/
theorem loadCharInfo_row (codec : TitleCodec τ) {charguid : UInt64} {name title : List UInt8}
    {svc : DBCharService δ} (hserves : api.Serves rows charguid.toNat name title)
    (hrow : rows svc.db charguid.toNat = some (name, title))
    (hconnected : svc.kMysqlHandler.isConnected = true) (rkOther : CharData τ) :
    ∃ handler db, loadCharInfo api codec svc charguid rkOther =
      loadRow codec handler svc.mem db ⟨[], [some name, some title], 0, 2⟩ rkOther := by
  obtain ⟨hping, hanswer⟩ := hserves.returned svc.db hrow
  have hsame : (svc.kMysqlHandler.makeSqlString (selectChar charguid.toNat)).isConnected = true :=
    hconnected
  have hexecute : ((svc.kMysqlHandler.makeSqlString (selectChar charguid.toNat)).executeSQL api
      svc.db).ret = true ∧
      ((svc.kMysqlHandler.makeSqlString (selectChar charguid.toNat)).executeSQL api
        svc.db).answer = some ⟨[[some name, some title]], 2, 1⟩ := by
    rw [executeSQL_makeSqlString _ _ (selectChar_length charguid), execute,
      reach_of_connected _ _ hsame, if_neg (by rw [hping]; decide)]
    exact ⟨congrArg Option.isSome hanswer, hanswer⟩
  rw [loadCharInfo]
  generalize (svc.kMysqlHandler.makeSqlString (selectChar charguid.toNat)).executeSQL api svc.db = r
    at hexecute ⊢
  obtain ⟨hret, hrows⟩ := hexecute
  rw [hrows, if_pos ⟨hret, Nat.one_pos, rfl⟩]
  exact ⟨r.handler, r.db, rfl⟩

/-! ## The arrays -/

/-- The write is inside its array. -/
def Inside (w : BlobWrite) : Prop := w.offset + w.length ≤ w.buffer.size

/-- `EncodeBlob` ends a title of as many bytes as the array has behind it. -/
theorem createWrites_inside (hdoc : api.Documented rows) (svc : DBCharService δ)
    (rkCharData : CharData τ) :
    (∀ w ∈ createWrites api codec svc rkCharData, Inside w) ↔
      (codec.serialize rkCharData.titleData).length ≠ maxBlobInfoLength := by
  have hescaped : Inside ⟨.szEscapedBlobBuff, 0,
      (api.realEscapeString (saved codec svc rkCharData)).length + 1⟩ := by
    have hlen := saved_length codec svc rkCharData
    have hdouble := hdoc.escape_length (saved codec svc rkCharData)
    rw [Inside, BlobBuffer.size]
    dsimp only
    omega
  rw [createWrites, encodeBlob]
  split
  · next hlong =>
    simp only [List.map_nil, List.nil_append, List.forall_mem_singleton]
    exact iff_of_true hescaped (Nat.ne_of_gt hlong)
  · next hfits =>
    have hend : Inside ⟨.szBlobBuff, (codec.serialize rkCharData.titleData).length, 1⟩ ↔
        (codec.serialize rkCharData.titleData).length ≠ maxBlobInfoLength := by
      rw [Inside, BlobBuffer.size]
      dsimp only
      omega
    have hbytes : Inside ⟨.szBlobBuff, 0, (codec.serialize rkCharData.titleData).length⟩ := by
      rw [Inside, BlobBuffer.size]
      dsimp only
      omega
    simp only [List.map_cons, List.map_nil, List.cons_append, List.nil_append, List.forall_mem_cons,
      List.not_mem_nil, false_implies, implies_true, and_true]
    rw [and_iff_right hbytes, and_iff_left hescaped, hend]

/-- `get_blob` gives no more bytes than the array has. -/
theorem getBlob_buffLen (r : MysqlResult) (m : Memory) (buff buffLen : Nat) :
    (r.getBlob m buff buffLen).buffLen ≤ buffLen := by
  rw [MysqlResult.getBlob]
  split
  · split
    · assumption
    · exact Nat.zero_le _
  · exact Nat.zero_le _

theorem loadCharInfo_inside (api : MysqlApi δ) (codec : TitleCodec τ) (svc : DBCharService δ)
    (charguid : UInt64) (rkOther : CharData τ) :
    ∀ w ∈ (loadCharInfo api codec svc charguid rkOther).writes, Inside w := by
  intro w hw
  rw [loadCharInfo] at hw
  split at hw
  · rw [loadRow] at hw
    obtain rfl := List.mem_singleton.mp hw
    rw [Inside, Nat.zero_add]
    exact getBlob_buffLen _ _ _ _
  · exact absurd hw List.not_mem_nil

/-! ## What is saved is loaded -/

/-- What `CreateChar` and the `LoadCharInfo` behind it promise: a success means that the title is
loaded as it was saved; no row is written when the title or the statement does not fit; and both
arrays are kept. -/
structure SavesTitle (api : MysqlApi δ) (rows : CharRows δ) (codec : TitleCodec τ)
    (svc : DBCharService δ) (uiUserID : UInt32) (rkCharData rkOther : CharData τ) : Prop where
  loaded : (createChar api codec svc uiUserID rkCharData).ret = reLoginCreateCharSuccess →
    let r := loadCharInfo api codec (createChar api codec svc uiUserID rkCharData).svc
      uiUserID.toUInt64 rkOther
    r.ret = true ∧ r.rkCharData.titleData = rkCharData.titleData
  unwritten : maxBlobInfoLength < (codec.serialize rkCharData.titleData).length ∨
      maxSqlStringLength ≤ (statement api codec svc uiUserID rkCharData).length →
    rows (createChar api codec svc uiUserID rkCharData).svc.db = rows svc.db
  inside : ∀ w ∈ (createChar api codec svc uiUserID rkCharData).writes ++
      (loadCharInfo api codec (createChar api codec svc uiUserID rkCharData).svc
        uiUserID.toUInt64 rkOther).writes, Inside w

theorem createChar_writes (hdoc : api.Documented rows) (svc : DBCharService δ) (uiUserID : UInt32)
    (rkCharData : CharData τ) :
    (createChar api codec svc uiUserID rkCharData).writes =
      createWrites api codec svc rkCharData := by
  rw [createChar_eq hdoc]
  split
  · rfl
  · rfl

/-- What is loaded behind an insert that was taken. -/
theorem loadCharInfo_created (hdoc : api.Documented rows)
    (hserves : api.Serves rows uiUserID.toNat rkCharData.szCharName.bytes
      (saved codec svc rkCharData))
    (htaken : Taken api svc (statement api codec svc uiUserID rkCharData)) (rkOther : CharData τ) :
    let r := loadCharInfo api codec (createChar api codec svc uiUserID rkCharData).svc
      uiUserID.toUInt64 rkOther
    (r.ret, r.rkCharData.titleData) =
      if saved codec svc rkCharData = [] then (true, rkOther.titleData)
      else codec.parseFromArray rkOther.titleData (saved codec svc rkCharData) := by
  obtain ⟨-, hrow, hconnected⟩ := createChar_taken hserves hdoc htaken
  have hguid : uiUserID.toUInt64.toNat = uiUserID.toNat := UInt32.toNat_toUInt64 uiUserID
  rw [← hguid] at hserves hrow
  obtain ⟨handler, db, hload⟩ := loadCharInfo_row codec hserves hrow hconnected rkOther
  rw [hload]
  exact loadRow_title codec handler _ db (saved_length codec svc rkCharData) rkOther

/-- A title that is not too long is what is saved. -/
theorem saved_eq (svc : DBCharService δ)
    (hfits : (codec.serialize rkCharData.titleData).length ≤ maxBlobInfoLength) :
    saved codec svc rkCharData = codec.serialize rkCharData.titleData :=
  if_neg (Nat.not_lt_of_le hfits)

/-- When the code keeps the promise: the title is not as long as the array; and when its insert is
taken, it is not longer either, and an empty one is what the other character has. -/
def Savable (api : MysqlApi δ) (codec : TitleCodec τ) (svc : DBCharService δ) (uiUserID : UInt32)
    (rkCharData rkOther : CharData τ) : Prop :=
  (codec.serialize rkCharData.titleData).length ≠ maxBlobInfoLength ∧
    (Taken api svc (statement api codec svc uiUserID rkCharData) →
      (codec.serialize rkCharData.titleData).length ≤ maxBlobInfoLength ∧
        (codec.serialize rkCharData.titleData = [] → rkOther.titleData = rkCharData.titleData))

theorem savesTitle_iff (hdoc : api.Documented rows)
    (hserves : api.Serves rows uiUserID.toNat rkCharData.szCharName.bytes
      (saved codec svc rkCharData))
    (hcodec : ∀ old title, codec.parseFromArray old (codec.serialize title) = (true, title)) :
    SavesTitle api rows codec svc uiUserID rkCharData rkOther ↔
      Savable api codec svc uiUserID rkCharData rkOther := by
  have hload := fun htaken => loadCharInfo_created hdoc hserves htaken rkOther
  constructor
  · rintro ⟨hloaded, hunwritten, hinside⟩
    rw [createChar_writes hdoc] at hinside
    refine ⟨(createWrites_inside hdoc svc rkCharData).mp fun w hw =>
      hinside w (List.mem_append_left _ hw), fun htaken => ?_⟩
    -- a title that is too long leaves a row, which the promise rules out
    have hfits : (codec.serialize rkCharData.titleData).length ≤ maxBlobInfoLength := by
      refine Nat.le_of_not_lt fun hlong => ?_
      obtain ⟨hfree, hrow, -⟩ := createChar_taken hserves hdoc htaken
      rw [hunwritten (.inl hlong), hfree] at hrow
      cases hrow
    refine ⟨hfits, fun hempty => ?_⟩
    obtain ⟨-, htitle⟩ := hloaded ((createChar_ret hserves hdoc).mpr htaken)
    have hsecond := congrArg Prod.snd (hload htaken)
    rw [saved_eq svc hfits, if_pos hempty] at hsecond
    exact hsecond.symm.trans htitle
  · rintro ⟨hsize, hwhen⟩
    refine ⟨fun hret => ?_, fun hmany => ?_, ?_⟩
    · have htaken := (createChar_ret hserves hdoc).mp hret
      obtain ⟨hfits, hempty⟩ := hwhen htaken
      have hpair := hload htaken
      rw [saved_eq svc hfits, hcodec] at hpair
      by_cases hnone : codec.serialize rkCharData.titleData = []
      · rw [if_pos hnone, hempty hnone] at hpair
        exact Prod.mk.inj hpair
      · rw [if_neg hnone] at hpair
        exact Prod.mk.inj hpair
    · refine createChar_refused hserves hdoc fun htaken => ?_
      rcases hmany with hlong | hlong
      · exact Nat.not_le_of_lt hlong (hwhen htaken).1
      · exact Nat.not_lt_of_le hlong htaken.1
    · rw [createChar_writes hdoc]
      intro w hw
      rcases List.mem_append.mp hw with hcreate | hload
      · exact (createWrites_inside hdoc svc rkCharData).mpr hsize w hcreate
      · exact loadCharInfo_inside _ _ _ _ _ w hload

/-! ## A server with one row

The server takes the insert of the character 7, named `a`, with one title, and knows no other
statement but the select behind it. The titles have a version below 128, which is what they are
serialized to. -/

/-- What escaping makes of a byte. -/
def escapeByte (b : UInt8) : List UInt8 :=
  if b = 0 then [92, 48]
  else if b = 10 then [92, 110]
  else if b = 13 then [92, 114]
  else if b = 26 then [92, 90]
  else if b = 34 ∨ b = 39 ∨ b = 92 then [92, b]
  else [b]

theorem escapeByte_length (b : UInt8) : (escapeByte b).length ≤ 2 := by
  rw [escapeByte]
  split_ifs <;> simp

theorem escapeByte_no_nul (b : UInt8) : 0 ∉ escapeByte b := by
  rw [escapeByte]
  by_cases hzero : b = 0
  · simp [hzero]
  · have hother : 0 ≠ b := fun heq => hzero heq.symm
    split_ifs <;> simp [hother]

/-- The version as the protobuf field 1, which is left out when it is zero. -/
def versionCodec : TitleCodec (Fin 128) where
  serialize v := if v = 0 then [] else [8, UInt8.ofNat v]
  parseFromArray _ bytes :=
    match bytes with
    | [] => (true, 0)
    | [8, v] => if h : v.toNat < 128 then (true, ⟨v.toNat, h⟩) else (false, 0)
    | _ => (false, 0)

theorem versionCodec_inverse : ∀ old title : Fin 128,
    versionCodec.parseFromArray old (versionCodec.serialize title) = (true, title) := by
  intro old title
  have hbyte : (UInt8.ofNat title.val).toNat = title.val :=
    UInt8.toNat_ofNat_of_lt (Nat.lt_trans title.isLt (by decide))
  by_cases hzero : title = 0
  · subst hzero
    rfl
  · have hserialize : versionCodec.serialize title = [8, UInt8.ofNat title.val] := if_neg hzero
    rw [hserialize]
    refine (dif_pos (show (UInt8.ofNat title.val).toNat < 128 by rw [hbyte]; exact title.isLt)).trans ?_
    exact congrArg (Prod.mk true) (Fin.ext hbyte)

/-- The statement the server takes. -/
def knownInsert (title : List UInt8) : List UInt8 :=
  insertChar 7 [97] [97] (title.flatMap escapeByte)

/-- The server: its state is the row of the character 7. -/
def oneRowServer (title : List UInt8) : MysqlApi (Option (List UInt8 × List UInt8)) where
  realEscapeString src := src.flatMap escapeByte
  realConnect db := (db, true)
  ping db := (db, true)
  realQuery db sql :=
    if sql = knownInsert title then
      match db with
      | none => (some ([97], title), some ⟨[], 0, 1⟩)
      | some _ => (db, none)
    else if sql = selectChar 7 then
      match db with
      | none => (db, some ⟨[], 2, 0⟩)
      | some row => (db, some ⟨[[some row.1, some row.2]], 2, 1⟩)
    else (db, none)
  errno db := if db.isSome then erDupEntry else 0

/-- Its rows. -/
def oneRow : CharRows (Option (List UInt8 × List UInt8)) :=
  fun db charguid => if charguid = 7 then db else none

theorem oneRowServer_documented (title : List UInt8) :
    (oneRowServer title).Documented oneRow := by
  refine ⟨fun src => ?_, fun src hnul => ?_, fun _ => rfl, fun _ => rfl⟩
  · induction src with
    | nil => exact Nat.le_refl 0
    | cons b src ih =>
      have hb := escapeByte_length b
      simp only [oneRowServer, List.flatMap_cons, List.length_append, List.length_cons] at ih ⊢
      omega
  · obtain ⟨b, -, hb⟩ := List.mem_flatMap.mp hnul
    exact escapeByte_no_nul b hb

/-- The insert starts with another letter than the select. -/
theorem select_not_prefix (title : List UInt8) : ¬selectChar 7 <+: knownInsert title := by
  rintro ⟨rest, heq⟩
  have hfirst := congrArg List.head? heq
  have hselect : (selectChar 7 ++ rest).head? = some 115 := rfl
  have hinsert : (knownInsert title).head? = some 105 := rfl
  rw [hselect, hinsert] at hfirst
  cases hfirst

theorem skill_ne_insert (title : List UInt8) : insertCharSkill 7 ≠ knownInsert title := by
  intro heq
  have hskill : (insertCharSkill 7)[18]? = some 95 := rfl
  have hinsert : (knownInsert title)[18]? = some 32 := rfl
  rw [heq, hinsert] at hskill
  cases hskill

/-- Only the insert changes the row. -/
theorem oneRowServer_keeps (title : List UInt8) (db : Option (List UInt8 × List UInt8))
    {sql : List UInt8} (hsql : sql ≠ knownInsert title) :
    ((oneRowServer title).realQuery db sql).1 = db := by
  rw [oneRowServer]
  dsimp only
  rw [if_neg hsql]
  split
  · cases db with
    | none => rfl
    | some row => rfl
  · rfl

theorem oneRowServer_serves (title : List UInt8) :
    (oneRowServer title).Serves oneRow 7 [97] title := by
  have hname : (oneRowServer title).charInsert 7 [97] title = knownInsert title := rfl
  have hselect : selectChar 7 ≠ knownInsert title := fun heq =>
    select_not_prefix title (heq ▸ List.prefix_refl _)
  have hinsert : ∀ db, (oneRowServer title).realQuery db (knownInsert title) =
      match db with
      | none => (some ([97], title), some ⟨[], 0, 1⟩)
      | some _ => (db, none) := fun db => if_pos rfl
  refine ⟨fun db => ?_, fun db => ?_, fun db part hpart hcut => ?_, fun db => ?_, fun db hrow => ?_⟩
  · rw [hname, hinsert]
    cases db with
    | none =>
      refine fun _ => ⟨rfl, funext fun charguid => ?_⟩
      rw [Function.update_apply, oneRow, oneRow]
      split
      · rfl
      · rfl
    | some row => exact fun hnone => absurd rfl hnone
  · rw [hname, hinsert]
    cases db with
    | none => exact fun hnone => nomatch hnone
    | some row => exact fun _ => rfl
  · rw [hname] at hpart hcut
    have hother : part ≠ selectChar 7 := fun heq => select_not_prefix title (heq ▸ hpart)
    refine ⟨?_, by rw [oneRowServer_keeps title db hcut]⟩
    rw [oneRowServer]
    dsimp only
    rw [if_neg hcut, if_neg hother]
  · rw [oneRowServer_keeps title db (skill_ne_insert title)]
  · obtain rfl : db = some ([97], title) := hrow
    refine ⟨rfl, ?_⟩
    rw [oneRowServer]
    dsimp only
    rw [if_neg hselect, if_pos rfl]

/-- The character 7, with a title of a version. -/
def charOf (version : Fin 128) : CharData (Fin 128) :=
  ⟨7, ⟨[97], by decide, by decide⟩, version⟩

/-- The service, with nothing in its arrays, and the server without the row. -/
def freshService : DBCharService (Option (List UInt8 × List UInt8)) :=
  ⟨⟨[], false⟩, fun _ => 0, none⟩

theorem savesTitle_iff_version :
    SavesTitle (oneRowServer [8, 5]) oneRow versionCodec freshService 7 (charOf 5) (charOf 0) ↔
      Savable (oneRowServer [8, 5]) versionCodec freshService 7 (charOf 5) (charOf 0) :=
  savesTitle_iff (oneRowServer_documented [8, 5]) (oneRowServer_serves [8, 5]) versionCodec_inverse

/-- An empty title is saved, and behind it the title of the character that is passed is what it
was. -/
theorem empty_title_not_loaded :
    ¬SavesTitle (oneRowServer []) oneRow versionCodec freshService 7 (charOf 0) (charOf 5) := by
  rintro ⟨hloaded, -, -⟩
  have hdoc := oneRowServer_documented []
  have hserves : (oneRowServer []).Serves oneRow (7 : UInt32).toNat (charOf 0).szCharName.bytes
      (saved versionCodec freshService (charOf 0)) := oneRowServer_serves []
  have hsaved : saved versionCodec freshService (charOf 0) = [] := rfl
  have hlen : (statement (oneRowServer []) versionCodec freshService 7 (charOf 0)).length = 110 := rfl
  have htaken : Taken (oneRowServer []) freshService
      (statement (oneRowServer []) versionCodec freshService 7 (charOf 0)) := by
    refine ⟨?_, rfl, fun hnone => ?_⟩
    · rw [hlen, maxSqlStringLength]
      decide
    · cases hnone
  obtain ⟨-, htitle⟩ := hloaded ((createChar_ret hserves hdoc).mpr htaken)
  have hpair := loadCharInfo_created hdoc hserves htaken (charOf 5)
  rw [hsaved, if_pos rfl] at hpair
  obtain ⟨-, hkept⟩ := Prod.mk.inj hpair
  rw [htitle] at hkept
  have hother : (charOf 0).titleData ≠ (charOf 5).titleData := by decide
  exact hother hkept

end DBCharService

end MmDriver
