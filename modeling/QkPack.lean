import QkPack.Lib.Decimal
import QkPack.Lib.CString
import QkPack.Lib.Resp
import QkPack.Lib.RespParse
import QkPack.Upstream.RedisProtocol
import QkPack.Upstream.ArrayWalk
import QkPack.Upstream.ArrayPrefix
import QkPack.Upstream.BoundedWait
import QkPack.Upstream.ProcessHeader
import QkPack.Snappys.RoundTrip
import QkPack.Core.Request
import QkPack.Protocol.Encode
import QkPack.Protocol.Decode
import QkPack.Protocol.Canonical
import QkPack.Protocol.CommandArgs
import QkPack.Protocol.ReadBack
import QkPack.Protocol.ScriptCaches
import QkPack.Core.Cluster
import QkPack.Core.Handler
import QkPack.Lib.Machine
import QkPack.Retry.Upstream
import QkPack.Core.Redirect
import QkPack.Protocol.Frames
import QkPack.Retry.Copies
import QkPack.Retry.Asking
import QkPack.Retry.Ping
import QkPack.Retry.Tries
import QkPack.Retry.Reinit
import QkPack.Pool.Connection
import QkPack.Core.Slot
import QkPack.FanOut.SubRequests
import QkPack.FanOut.Rounds
import QkPack.FanOut.SubArgs
import QkPack.FanOut.Writes
import QkPack.FanOut.Propagation
import QkPack.Lib.Json
import QkPack.Config.Acl
import QkPack.FanOut.Calls
import QkPack.Parser.ReadSpecs
import QkPack.Config.Namespaces
import QkPack.FanOut.CallCases
import QkPack.FanOut.EmptyRound
import QkPack.FanOut.Schedule
import QkPack.Lib.Redis
import QkPack.Protocol.Ranges
import QkPack.FanOut.Delivery
import QkPack.FanOut.DeliveredRounds
import QkPack.FanOut.MgetRound
import QkPack.FanOut.MgetOrder
import QkPack.Protocol.Scripts
import QkPack.FanOut.MsetRound
import QkPack.FanOut.MsetOrder
import QkPack.FanOut.FixedSetAdd
import QkPack.Config.AclProcess
import QkPack.Config.AclQuery
import QkPack.Core.ClusterNodes
import QkPack.Core.Routes
import QkPack.Retry.SharedConf
import QkPack.Core.CreateRequest
import QkPack.Parser.ShortKeys
import QkPack.FanOut.Planned
import QkPack.FanOut.Purpose
import QkPack.FanOut.OwnKeys
import QkPack.Core.Tenants
import QkPack.Core.TenantService
import QkPack.Snappys.Runs
import QkPack.FanOut.SameBytes
import QkPack.Lib.JsonGen
import QkPack.Parser.WriteJson
import QkPack.Retry.ResponseBuffer
import QkPack.FanOut.Lifetime
import QkPack.FanOut.RangeRound
import QkPack.FanOut.RangeValues
import QkPack.FanOut.BatchOrder
import QkPack.FanOut.RoundTrip
import QkPack.Snappys.Integrity
import QkPack.FanOut.SlotPartition
import QkPack.Lib.Greatest
import QkPack.Protocol.FixedSize
import QkPack.Config.LengthLimits
import QkPack.FanOut.NullValues
import QkPack.Parser.IntegerReplies
import QkPack.Core.Split
import QkPack.Parser.BlankFields
import QkPack.Parser.TtlReplies
import QkPack.Config.ClientSubnet
import QkPack.Core.MovedFrame
import QkPack.Core.ClusterLoads
import QkPack.Retry.RandomNode
import QkPack.Retry.PeerTable
import QkPack.Config.AclResponse
import QkPack.Parser.PostBody
import QkPack.Parser.NullStrings
import QkPack.Pool.Keepalive
import QkPack.Pool.Ledger
import QkPack.Pool.Shared
import QkPack.Core.TenantStore
import QkPack.Retry.Errand
import QkPack.Retry.Learning
import QkPack.Core.Posted
import QkPack.Lib.CrcLow
import QkPack.Snappys.Checksum
import QkPack.Core.Interleaved
import QkPack.FanOut.AmongOthers
import QkPack.FanOut.SlotsAtOnce
import QkPack.FanOut.Leaderboard
