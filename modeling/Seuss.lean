import Seuss.Channel.Decoding
import Seuss.Controller.Duplicates
import Seuss.Controller.Matching
import Seuss.Data.Pool
import Seuss.InvocationSession.Requests
import Seuss.System.WorkQueue
import Seuss.Invoker.ConcurrencyLimit
import Seuss.Invoker.Failure
import Seuss.Invoker.IdleInstances
import Seuss.Invoker.Replies
import Seuss.Invoker.Responses
import Seuss.Invoker.SingleEnd
import Seuss.Invoker.Watchdog
import Seuss.Deployment.Isolation
import Seuss.System.Transparency
import Seuss.OpenWhisk.Content
import Seuss.Dsys.MemberSet
import Seuss.Invoker.Limits
import Seuss.Invoker.Ports
import Seuss.Invoker.Reuse
import Seuss.OpenWhisk.CouchDb
import Seuss.Invoker.WaitTime
import Seuss.Controller.Ingest
import Seuss.Controller.Completion
import Seuss.Controller.IoCpus
import Seuss.OpenWhisk.Dispatch
import Seuss.System.EndToEnd
import Seuss.System.Completion
import Seuss.System.Backends
import Seuss.System.Benchmark
import Seuss.System.Consumer
import Seuss.InvokerNode.Basic
import Seuss.InvokerNode.ColdStarts
import Seuss.InvokerNode.Service
import Seuss.FullStack.Completion
import Seuss.Kafka.Refinement
