import HttpServer.RequestStream
import HttpServer.RequestRoundTrip
import HttpServer.FramingConflict
import HttpServer.ResponseFraming
import HttpServer.WriteInterest
import HttpServer.CloseCommitment
import HttpServer.ProtocolClose
import HttpServer.PipelineService
import HttpServer.ResponseStream
import HttpServer.TaskQueue
import HttpServer.RateIsolation
import HttpServer.BucketLifetime
import HttpServer.OneshotRearm
import HttpServer.BacklogRecovery
import HttpServer.DescriptorReuse
import HttpServer.DescriptorOwnership
import HttpServer.ConnectionAccounting
import HttpServer.HeaderLimit
import HttpServer.ParserBounds
import HttpServer.ParserProgress
import HttpServer.ChunkSizeGrammar
import HttpServer.TransferCoding
import HttpServer.EndOfStream
import HttpServer.IdleReaping
import HttpServer.ThreadPool
import HttpServer.StopRequest
import HttpServer.DrainPeriod
import HttpServer.HeaderMap
import HttpServer.AccessLog
import HttpServer.LogJson
import HttpServer.Logger
import HttpServer.Application
import HttpServer.RateLinearization
import HttpServer.CanonicalRequest
import HttpServer.PoolCompletion
import HttpServer.AddressLimit
import HttpServer.ConnectionHeader
import HttpServer.Teardown
import HttpServer.ReadIntake
import HttpServer.StoppedIntake
import HttpServer.DescriptorRelease
import HttpServer.ShutdownProgress
import HttpServer.DeadlockFreedom
