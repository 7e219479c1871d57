import MmDriver.Laws.Common.Message
import MmDriver.Common.MsgQueue
import MmDriver.Laws.Common.MsgQueue
import MmDriver.Laws.Common.MsgQueueFifo
import MmDriver.Laws.Common.MsgQueueFrame
import MmDriver.Laws.Common.MsgChannel
import MmDriver.Laws.Common.MsgChannelIsolation
import MmDriver.Laws.Common.MsgChannelAttach
import MmDriver.Common.MsgQueueSteps
import MmDriver.Laws.Common.SpscInv
import MmDriver.Laws.Common.SpscProducer
import MmDriver.Laws.Common.SpscConsumer
import MmDriver.Laws.Common.Spsc
import MmDriver.Laws.Network.Packet
import MmDriver.Laws.Test.NetService
import MmDriver.Laws.Test.PacketAgreement
import MmDriver.Laws.Test.PacketTest
import MmDriver.Laws.Test.PeekAgreement
import MmDriver.Laws.Network.ClientSend
import MmDriver.Laws.Test.NetClose
import MmDriver.Laws.Network.SendBounds
import MmDriver.Laws.Network.ClientLife
import MmDriver.Laws.Common.AlarmWord
import MmDriver.Laws.Common.Interval
import MmDriver.Laws.Test.RecvCapacity
import MmDriver.Laws.Test.MessageLoop
import MmDriver.Laws.Service.RunOnce
import MmDriver.Laws.Service.RunSafe
import MmDriver.Laws.Service.RegisterMessage
import MmDriver.Laws.Test.HttpManagerPool
import MmDriver.Laws.Test.HttpDispatch
import MmDriver.Laws.Test.DBCharacter
import MmDriver.Laws.Test.HttpBusy
import MmDriver.Laws.Test.HttpRaces
import MmDriver.Laws.Test.ShortFrames
import MmDriver.Laws.Test.ParseBounds
import MmDriver.Laws.Common.MsgChannelFailures
import MmDriver.Laws.Common.Base64
import MmDriver.Laws.Common.CpuMemStat
import MmDriver.Laws.Common.LogRotation
import MmDriver.Laws.Common.Pool
import MmDriver.Laws.Common.StringUtility
import MmDriver.Laws.Common.MsgQueueWrap
import MmDriver.Laws.Db.SQLiteResult
import MmDriver.Laws.Db.RedisHandler
import MmDriver.Laws.Common.LuaOrder
import MmDriver.Laws.Common.LuaCache
import MmDriver.Laws.Common.PushUserType
import MmDriver.Laws.Common.CheckUserType
import MmDriver.Laws.Test.PacketData
import MmDriver.Laws.Test.NetLogin
import MmDriver.Laws.Test.ClientList
import MmDriver.Laws.Test.Descriptors
import MmDriver.Laws.Test.Admission
import MmDriver.Laws.Test.NetExchange
