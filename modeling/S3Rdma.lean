import S3Rdma.Client.Benchmark
import S3Rdma.Client.Callback
import S3Rdma.Client.Dump
import S3Rdma.Client.EndToEnd
import S3Rdma.Client.Inject
import S3Rdma.Common.Base64
import S3Rdma.Common.CompletionAuthority
import S3Rdma.Common.Jsonl
import S3Rdma.Common.Protocol
import S3Rdma.Common.RawHttp
import S3Rdma.Common.SigV4
import S3Rdma.Common.Util
import S3Rdma.Http.Exchange
import S3Rdma.Http.Head
import S3Rdma.Http.Message
import S3Rdma.Http.Receipt
import S3Rdma.Http.Request
import S3Rdma.Http.Segmentation
import S3Rdma.Http.Sockets
import S3Rdma.Lib.Bytes
import S3Rdma.Lib.Decimal
import S3Rdma.Lib.Ensures
import S3Rdma.Lib.Json
import S3Rdma.Lib.Monitor
import S3Rdma.Lib.OrdMap
import S3Rdma.Lib.Paths
import S3Rdma.Lib.Prog
import S3Rdma.Lib.Runs
import S3Rdma.Lib.Search
import S3Rdma.Lib.Stoull
import S3Rdma.Lib.Sweep
import S3Rdma.Lib.Tickets
import S3Rdma.Lib.Tiling
import S3Rdma.Lib.Utf8
import S3Rdma.Lib.Word
import S3Rdma.Lib.Words
import S3Rdma.Probe.Complete
import S3Rdma.Probe.Concurrent
import S3Rdma.Probe.Conduct
import S3Rdma.Probe.Counters
import S3Rdma.Probe.Exit
import S3Rdma.Probe.Experiments
import S3Rdma.Probe.Gate
import S3Rdma.Probe.Geometry
import S3Rdma.Probe.GuardWitness
import S3Rdma.Probe.Latch
import S3Rdma.Probe.Main
import S3Rdma.Probe.Operations
import S3Rdma.Probe.Options
import S3Rdma.Probe.Overlap
import S3Rdma.Probe.Rig
import S3Rdma.Probe.RigCallback
import S3Rdma.Probe.SingleGet
import S3Rdma.Scope.Decision
import S3Rdma.Scope.Layout
import S3Rdma.Scope.Log
import S3Rdma.Scope.Outcome
import S3Rdma.Scope.Run
import S3Rdma.Server.Accumulator
import S3Rdma.Server.Address
import S3Rdma.Server.Chunk
import S3Rdma.Server.Completion
import S3Rdma.Server.Deliver
import S3Rdma.Server.Delivery
import S3Rdma.Server.Direct
import S3Rdma.Server.FdCache
import S3Rdma.Server.HandleGet
import S3Rdma.Server.Handler
import S3Rdma.Server.Memory
import S3Rdma.Server.ObjectFile
import S3Rdma.Server.Range
import S3Rdma.Server.Safety
import S3Rdma.Server.Serving
import S3Rdma.Server.SlotPool
import S3Rdma.Server.SlotReturn
import S3Rdma.Server.Staging
import S3Rdma.Server.Steps
import S3Rdma.Server.Stranding
import S3Rdma.Server.Teardown
import S3Rdma.Server.Token
import S3Rdma.Signing.Binding
import S3Rdma.Signing.Canonical
import S3Rdma.Signing.Target
import S3Rdma.Signing.Verifier
import S3Rdma.Verify.Closure
import S3Rdma.Verify.Decimal
import S3Rdma.Verify.Manifest
import S3Rdma.Verify.Sampler
