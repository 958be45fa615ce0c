import UProtocols.Runs
import UProtocols.ByteOrder
import UProtocols.ReliableUdp
import UProtocols.ReliableUdpEndpoint
import UProtocols.Channel
import UProtocols.ReliableUdpLink
import UProtocols.ReliableUdpDelivery
import UProtocols.ReliableUdpAcknowledgment
import UProtocols.ReliableUdpFailedSend
import UProtocols.ReliableUdpCodec
import UProtocols.Rudp
import UProtocols.RudpHistory
import UProtocols.Framing
import UProtocols.CircularBuffer
import UProtocols.WebSocketBuffer
import UProtocols.WebSocketFrame
import UProtocols.WebSocketEncoders
import UProtocols.WebSocketDebugServer
import UProtocols.WebSocketReassembly
import UProtocols.LinkedChain
import UProtocols.LockFreeQueue
import UProtocols.LockFreeQueueInvariant
import UProtocols.LockFreeQueueFifo
import UProtocols.LockFreeQueueReclamation
import UProtocols.LockFreeQueueC
import UProtocols.LockFreeQueueCount
import UProtocols.LockFreeQueueCReachability
import UProtocols.LockFreeRingBuffer
import UProtocols.CanRingBuffer
import UProtocols.CanRingBufferInvariant
import UProtocols.CanRingBufferSpsc
import UProtocols.CanRingBufferClear
import UProtocols.CanBufferManager
import UProtocols.MqttSnGateway
import UProtocols.MqttSnHandlers
import UProtocols.MqttSnTopics
import UProtocols.MqttSnGatewayCpp
import UProtocols.Metering
import UProtocols.TokenBucket
import UProtocols.SlidingWindow
import UProtocols.AdaptiveRateLimiter
import UProtocols.Mutexes
import UProtocols.RateLimitedPublisher
import UProtocols.Utf8
import UProtocols.ViolationHandler
import UProtocols.ViolationHandlerLanguage
import UProtocols.ViolationHandlerC
import UProtocols.ViolationHandlerText
import UProtocols.Utf8Checkers
import UProtocols.Escaping
import UProtocols.HtmlEscape
import UProtocols.Brackets
import UProtocols.JsonStructure
import UProtocols.ClassicBpf
import UProtocols.RawBpfFilter
import UProtocols.TcpStateManager
import UProtocols.ArpCache
import UProtocols.ListSegment
import UProtocols.ArpCacheC
import UProtocols.ArpCacheAgreement
import UProtocols.CanPriorityQueue
import UProtocols.CanHybridScheduler
import UProtocols.CanScheduler
import UProtocols.ConnectionMigration
import UProtocols.ConnectionMigrationTasks
import UProtocols.ConnectionMigrationCpp
import UProtocols.ConnectionMigrationResume
import UProtocols.ConnectionMigrationLoop
import UProtocols.ErrorRecovery
import UProtocols.ErrorRecoveryExits
import UProtocols.SendQueue
import UProtocols.Authentication
import UProtocols.AuthenticationC
import UProtocols.JoinedWords
import UProtocols.RoleChecks
import UProtocols.BufferPool
import UProtocols.BufferPoolCpp
import UProtocols.MemPool
import UProtocols.MicroservicesGateway
import UProtocols.ObjectPool
import UProtocols.Spans
import UProtocols.Arena
import UProtocols.MemoryArena
import UProtocols.RegisterBatch
import UProtocols.ErrorRecoveryCpp
import UProtocols.ErrorRecoveryC
import UProtocols.Backoff
import UProtocols.ReconnectSchedules
import UProtocols.BatchManager
import UProtocols.BatchManagerC
import UProtocols.BatchManagerCpp
import UProtocols.Interaction
import UProtocols.ByteBits
import UProtocols.I2cMaster
import UProtocols.BitBangSpi
import UProtocols.HeldResource
import UProtocols.ChipSelectRelease
import UProtocols.SpiMaster
import UProtocols.SpiTimeout
import UProtocols.NonBlockingSpi
import UProtocols.I2cMultiMaster
import UProtocols.I2cArbitration
import UProtocols.TokenBucketCpp
import UProtocols.WebSocketExtraction
import UProtocols.ByteStream
import UProtocols.ProtobufFraming
import UProtocols.I2cRetry
import UProtocols.LoopbackTester
import UProtocols.LowPowerI2c
import UProtocols.OnesComplement
import UProtocols.Ping
import UProtocols.PingLoop
import UProtocols.PingC
import UProtocols.ArpPacketCodec
import UProtocols.CanMailbox
import UProtocols.I2cErrorDetection
import UProtocols.DynamicBufferC
import UProtocols.CheckedInt
import UProtocols.SplitNumbers
import UProtocols.TimestampDuration
import UProtocols.Relays
import UProtocols.MioServer
import UProtocols.KqueueServer
import UProtocols.EpollServer
import UProtocols.PollServer
import UProtocols.PollServerC
import UProtocols.IoUringServer
import UProtocols.CanDriver
import UProtocols.RudpLink
import UProtocols.ArpNetwork
import UProtocols.ReliableUdpTraffic
import UProtocols.WebSocketDebugSession
import UProtocols.LockFreeQueueDrop
import UProtocols.MessageBroker
import UProtocols.PolledTimer
import UProtocols.CanScheduleRates
import UProtocols.Heartbeats
import UProtocols.ConnectionMigrationHealth
import UProtocols.Interference
import UProtocols.WriteBackCache
import UProtocols.SpiDma
import UProtocols.SpiDmaCache
import UProtocols.SpiRetry
