import MmDriver.Common.Message
import MmDriver.Protobuf.WireFormat
import MmDriver.Test.MessageLoop
import MmDriver.Test.PacketTest

/-!
# What packets and messages carry

`test/Packet.pb.h`, `test/Message.pb.h` and what is generated with them, `test/MessageTest.cpp`, and the
`Decode` of `test/PacketTest.cpp`.
-/

namespace MmDriver

open ByteMem

/-! ## Messages -/

/-- `NH_REQ_LOGIN`. -/
structure NhReqLogin where
  uid : UInt32
  account : List UInt8
  validateinfo : List UInt8
deriving DecidableEq, Repr

/-- The class of `NH_REQ_LOGIN`. -/
def nhReqLogin : ProtoClass NhReqLogin where
  cleared := ⟨0, [], []⟩
  cutoff := 127
  fields :=
    [⟨1, .uint32, NhReqLogin.uid, fun v m => { m with uid := v }⟩,
      ⟨2, .string, NhReqLogin.account, fun v m => { m with account := v }⟩,
      ⟨3, .string, NhReqLogin.validateinfo, fun v m => { m with validateinfo := v }⟩]

/-- `HN_RET_LOGIN`. -/
structure HnRetLogin where
  uid : UInt32
  account : List UInt8
  result : Int32
deriving DecidableEq, Repr

/-- The class of `HN_RET_LOGIN`. -/
def hnRetLogin : ProtoClass HnRetLogin where
  cleared := ⟨0, [], 0⟩
  cutoff := 127
  fields :=
    [⟨1, .uint32, HnRetLogin.uid, fun v m => { m with uid := v }⟩,
      ⟨2, .string, HnRetLogin.account, fun v m => { m with account := v }⟩,
      ⟨3, .int32, HnRetLogin.result, fun v m => { m with result := v }⟩]

/-- `CG_LOGIN`. -/
structure CgLogin where
  vtype : Int32
  gameversion : Int32
  programversion : Int32
  publicresourceversion : Int32
  maxpacketid : Int32
  forceenter : Int32
  deviceid : List UInt8
  devicetype : List UInt8
  deviceversion : List UInt8
  account : List UInt8
  validateinfo : List UInt8
  channelid : List UInt8
  mediachannel : List UInt8
  rapidvalidatecode : Int32
  reservedint1 : Int32
  reservedint2 : Int32
  reservedint3 : Int32
  reservedint4 : Int32
  reservedstring1 : List UInt8
  reservedstring2 : List UInt8
  reservedstring3 : List UInt8
  reservedstring4 : List UInt8
deriving DecidableEq, Repr

/-- The class of `CG_LOGIN`. -/
def cgLogin : ProtoClass CgLogin where
  cleared := ⟨0, 0, 0, 0, 0, 0, [], [], [], [], [], [], [], 0, 0, 0, 0, 0, [], [], [], []⟩
  cutoff := 16383
  fields :=
    [⟨1, .int32, CgLogin.vtype, fun v m => { m with vtype := v }⟩,
      ⟨2, .int32, CgLogin.gameversion, fun v m => { m with gameversion := v }⟩,
      ⟨3, .int32, CgLogin.programversion, fun v m => { m with programversion := v }⟩,
      ⟨4, .int32, CgLogin.publicresourceversion, fun v m => { m with publicresourceversion := v }⟩,
      ⟨5, .int32, CgLogin.maxpacketid, fun v m => { m with maxpacketid := v }⟩,
      ⟨6, .int32, CgLogin.forceenter, fun v m => { m with forceenter := v }⟩,
      ⟨7, .string, CgLogin.deviceid, fun v m => { m with deviceid := v }⟩,
      ⟨8, .string, CgLogin.devicetype, fun v m => { m with devicetype := v }⟩,
      ⟨9, .string, CgLogin.deviceversion, fun v m => { m with deviceversion := v }⟩,
      ⟨10, .string, CgLogin.account, fun v m => { m with account := v }⟩,
      ⟨11, .string, CgLogin.validateinfo, fun v m => { m with validateinfo := v }⟩,
      ⟨12, .string, CgLogin.channelid, fun v m => { m with channelid := v }⟩,
      ⟨13, .string, CgLogin.mediachannel, fun v m => { m with mediachannel := v }⟩,
      ⟨14, .int32, CgLogin.rapidvalidatecode, fun v m => { m with rapidvalidatecode := v }⟩,
      ⟨15, .int32, CgLogin.reservedint1, fun v m => { m with reservedint1 := v }⟩,
      ⟨16, .int32, CgLogin.reservedint2, fun v m => { m with reservedint2 := v }⟩,
      ⟨17, .int32, CgLogin.reservedint3, fun v m => { m with reservedint3 := v }⟩,
      ⟨18, .int32, CgLogin.reservedint4, fun v m => { m with reservedint4 := v }⟩,
      ⟨19, .string, CgLogin.reservedstring1, fun v m => { m with reservedstring1 := v }⟩,
      ⟨20, .string, CgLogin.reservedstring2, fun v m => { m with reservedstring2 := v }⟩,
      ⟨21, .string, CgLogin.reservedstring3, fun v m => { m with reservedstring3 := v }⟩,
      ⟨22, .string, CgLogin.reservedstring4, fun v m => { m with reservedstring4 := v }⟩]

/-- `GC_LOGIN`. -/
structure GcLogin where
  result : Int32
deriving DecidableEq, Repr

/-- The class of `GC_LOGIN`. -/
def gcLogin : ProtoClass GcLogin where
  cleared := ⟨0⟩
  cutoff := 127
  fields := [⟨1, .int32, GcLogin.result, fun v _ => ⟨v⟩⟩]

/-! ## What carries them -/

/-- The bytes of a message. -/
def ProtoClass.toProto {M : Type} (c : ProtoClass M) (m : M) : ProtoMessage := ⟨c.serialize m⟩

/-- `P_Login::Decode` and its likes: a message from the bytes behind the pointer. -/
def ProtoClass.decode {M : Type} (c : ProtoClass M) (m : Memory) (pBuff nBufSize : Nat) : Option M :=
  c.parseFromArray (slice m pBuff nBufSize)

/-- A message around a protobuf message. Its `Encode` says how much room there is, and `nBufSize` is a
`tuint16`. -/
def protoMessage (messageID : UInt16) (messageData : ProtoMessage) : Driver.Message where
  getMessageID := messageID
  encode pBuff a nBufSize :=
    let r := messageData.serializePartialToArray pBuff a nBufSize
    if r.1 = false then ⟨false, r.2, nBufSize⟩
    else ⟨true, r.2, TUint16.ofInt messageData.byteSize⟩

/-- `M_REQ_Login`. -/
def mReqLogin (messageData : NhReqLogin) : Driver.Message :=
  protoMessage (UInt16.ofNat msgNhReqLogin) (nhReqLogin.toProto messageData)

end MmDriver
