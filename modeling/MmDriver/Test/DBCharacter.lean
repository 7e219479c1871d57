import MmDriver.Db.Mysql

/-!
# Characters in the database

`CreateChar` and `LoadCharInfo` of `test/DBService.cpp`, with `EncodeBlob` and `DecodeBlob` of
`test/DBStruct.h`. The protobuf message of the titles is a parameter. A step also answers with what
it writes through the two arrays, as offsets from the array's start.
-/

namespace MmDriver

open ByteMem

/-- `CHAR_NAME_LENGTH`. -/
def charNameLength : Nat := 32

/-- `MAX_BLOB_INFO_LENGTH`. -/
def maxBlobInfoLength : Nat := 0xFFFF

/-- `DBCharTitle`, by what it serializes to and what parsing leaves in an object. -/
structure TitleCodec (τ : Type) where
  serialize : τ → List UInt8
  parseFromArray : τ → List UInt8 → Bool × τ

/-- The string in `m_szCharName`. -/
structure CharName where
  bytes : List UInt8
  length_lt : bytes.length < charNameLength
  no_nul : 0 ∉ bytes

/-- The string in an array that bytes and a NUL were copied to. -/
def CharName.ofBytes (copied : { bytes : List UInt8 // bytes.length < charNameLength }) : CharName where
  bytes := copied.1.takeWhile (· ≠ 0)
  length_lt := Nat.lt_of_le_of_lt (List.takeWhile_prefix _).length_le copied.2
  no_nul h := by simpa using List.mem_takeWhile_imp h

/-- `CharData`. -/
structure CharData (τ : Type) where
  nID : UInt32
  szCharName : CharName
  titleData : τ

variable {τ δ : Type}

/-- The name that was copied into `m_szCharName`, if one was. -/
def CharData.withName (rkCharData : CharData τ) :
    Option { bytes : List UInt8 // bytes.length < charNameLength } → CharData τ
  | some copied => { rkCharData with szCharName := .ofBytes copied }
  | none => rkCharData

@[simp] theorem CharData.withName_titleData (rkCharData : CharData τ)
    (copied : Option { bytes : List UInt8 // bytes.length < charNameLength }) :
    (rkCharData.withName copied).titleData = rkCharData.titleData := by
  cases copied with
  | none => rfl
  | some copied => rfl

/-! ## `EncodeBlob`, `DecodeBlob` -/

/-- What `EncodeBlob` leaves; `writes` are its spans of `pBuff`. -/
structure EncodeBlobResult where
  ret : Bool
  mem : Memory
  usSize : Nat
  writes : List (Nat × Nat)

/-- `EncodeBlob`. -/
def encodeBlob (codec : TitleCodec τ) (rkInfo : τ) (m : Memory) (pBuff usSize : Nat) :
    EncodeBlobResult :=
  let bytes := codec.serialize rkInfo
  if usSize < bytes.length then ⟨false, m, usSize, []⟩
  else
    let m := copy m pBuff (ofList bytes) bytes.length
    ⟨true, storeByte m (pBuff + bytes.length) 0, bytes.length,
      [(0, bytes.length), (bytes.length, 1)]⟩

/-- `DecodeBlob`. -/
def decodeBlob (codec : TitleCodec τ) (rkInfo : τ) (m : Memory) (pBuff usSize : Nat) : Bool × τ :=
  codec.parseFromArray rkInfo (slice m pBuff usSize)

/-! ## The service -/

/-- The arrays of the service that hold a title. -/
inductive BlobBuffer where
  | szBlobBuff
  | szEscapedBlobBuff
deriving DecidableEq, Repr

namespace BlobBuffer

/-- Where an array starts: they are neighbours. -/
def base : BlobBuffer → Nat
  | .szBlobBuff => 0
  | .szEscapedBlobBuff => maxBlobInfoLength

def size : BlobBuffer → Nat
  | .szBlobBuff => maxBlobInfoLength
  | .szEscapedBlobBuff => 2 * maxBlobInfoLength + 1

end BlobBuffer

/-- A write through an array. -/
structure BlobWrite where
  buffer : BlobBuffer
  offset : Nat
  length : Nat
deriving DecidableEq, Repr

/-- `DBService`: the members of these functions, with the memory of the two arrays, and the server. -/
structure DBCharService (δ : Type) where
  kMysqlHandler : MysqlHandler
  mem : Memory
  db : δ

namespace DBCharService

/-- `RE_LOGIN_NAME_ALREADY_USED`. -/
def reLoginNameAlreadyUsed : Nat := 2

/-- `RE_LOGIN_CREATE_CHAR_FAIL`. -/
def reLoginCreateCharFail : Nat := 3

/-- `RE_LOGIN_CREATE_CHAR_SUCCESS`. -/
def reLoginCreateCharSuccess : Nat := 4

/-- `ER_DUP_ENTRY`. -/
def erDupEntry : Nat := 1062

/-- The statement of `CreateChar`, with the escaped strings. -/
def insertChar (charguid : Nat) (accname charname title : List UInt8) : List UInt8 :=
  sqlText "insert into t_char (charguid, accname, charname, hp, mp, title, isvalid) values (" ++
    (sqlDecimal charguid ++ (sqlText ", '" ++ (accname ++ (sqlText "', '" ++ (charname ++
      (sqlText "', " ++ (sqlDecimal 100 ++ (sqlText ", " ++ (sqlDecimal 100 ++ (sqlText ", '" ++
        (title ++ sqlText "', 1)")))))))))))

/-- The second statement of `CreateChar`. -/
def insertCharSkill (charguid : Nat) : List UInt8 :=
  sqlText "insert into t_char_skill (charguid, isvalid) values (" ++
    (sqlDecimal charguid ++ sqlText ", 1)")

/-- The statement of `LoadCharInfo`. -/
def selectChar (charguid : Nat) : List UInt8 :=
  sqlText "select charname,title from t_char where charguid=" ++
    (sqlDecimal charguid ++ sqlText " and isvalid=1")

/-- What `CreateChar` leaves. -/
structure CreateResult (δ : Type) where
  ret : Nat
  svc : DBCharService δ
  writes : List BlobWrite

/-- `CreateChar`. The results of `EncodeBlob`, of the escaping and of the second statement are not
looked at. -/
def createChar (api : MysqlApi δ) (codec : TitleCodec τ) (svc : DBCharService δ) (uiUserID : UInt32)
    (rkCharData : CharData τ) : CreateResult δ :=
  let name := MysqlHandler.makeRealEscapeString api (fun _ => 0) 0 rkCharData.szCharName.bytes
  let szEscapeCharName := cString name.mem 0 (2 * charNameLength + 1)
  let blob := encodeBlob codec rkCharData.titleData svc.mem BlobBuffer.szBlobBuff.base
    maxBlobInfoLength
  let escaped := MysqlHandler.makeRealEscapeString api blob.mem BlobBuffer.szEscapedBlobBuff.base
    (slice blob.mem BlobBuffer.szBlobBuff.base blob.usSize)
  let szEscapedBlobBuff := cString escaped.mem BlobBuffer.szEscapedBlobBuff.base
    BlobBuffer.szEscapedBlobBuff.size
  let writes := blob.writes.map (fun w => BlobWrite.mk .szBlobBuff w.1 w.2) ++
    [⟨.szEscapedBlobBuff, 0, escaped.written⟩]
  let r := (svc.kMysqlHandler.makeSqlString
    (insertChar uiUserID.toNat szEscapeCharName szEscapeCharName szEscapedBlobBuff)).executeSQL api
      svc.db
  if r.ret = false then
    ⟨if api.errno r.db = erDupEntry then reLoginNameAlreadyUsed else reLoginCreateCharFail,
      ⟨r.handler, escaped.mem, r.db⟩, writes⟩
  else
    let r := (r.handler.makeSqlString (insertCharSkill uiUserID.toNat)).executeSQL api r.db
    ⟨reLoginCreateCharSuccess, ⟨r.handler, escaped.mem, r.db⟩, writes⟩

/-- What `LoadCharInfo` leaves. -/
structure LoadResult (τ δ : Type) where
  ret : Bool
  svc : DBCharService δ
  rkCharData : CharData τ
  writes : List BlobWrite

/-- Behind `get_blob`: a title of which there are bytes is decoded. -/
def loadTitle (codec : TitleCodec τ) (m : Memory) (tBlobSize : Nat) (rkCharData : CharData τ) :
    Bool × CharData τ :=
  if 0 < tBlobSize then
    let title := decodeBlob codec rkCharData.titleData m BlobBuffer.szBlobBuff.base tBlobSize
    (title.1, { rkCharData with titleData := title.2 })
  else (true, rkCharData)

/-- Behind `fetch_next_row`: the name, then the title. -/
def loadRow (codec : TitleCodec τ) (handler : MysqlHandler) (m : Memory) (db : δ)
    (kDBResult : MysqlResult) (rkCharData : CharData τ) : LoadResult τ δ :=
  let name := kDBResult.getString charNameLength
  let blob := name.2.getBlob m BlobBuffer.szBlobBuff.base maxBlobInfoLength
  let loaded := loadTitle codec blob.mem blob.buffLen (rkCharData.withName name.1)
  ⟨loaded.1, ⟨handler, blob.mem, db⟩, loaded.2, [⟨.szBlobBuff, 0, blob.buffLen⟩]⟩

/-- `LoadCharInfo`. -/
def loadCharInfo (api : MysqlApi δ) (codec : TitleCodec τ) (svc : DBCharService δ)
    (uCharGuid : UInt64) (rkCharData : CharData τ) : LoadResult τ δ :=
  let r := (svc.kMysqlHandler.makeSqlString (selectChar uCharGuid.toNat)).executeSQL api svc.db
  let kDBResult := (MysqlResult.setResult r.answer).fetchNextRow
  let numAffect : Nat := (r.answer.map fun answer => answer.affectedRows % 2 ^ 32).getD 0
  if r.ret = true ∧ 0 < numAffect ∧ kDBResult.1 = true then
    loadRow codec r.handler svc.mem r.db kDBResult.2 rkCharData
  else ⟨false, ⟨r.handler, svc.mem, r.db⟩, rkCharData, []⟩

end DBCharService

end MmDriver
