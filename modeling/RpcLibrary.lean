import RpcLibrary.AcceptedRequests
import RpcLibrary.Arg
import RpcLibrary.BinderDatabase
import RpcLibrary.BinderLinearizability
import RpcLibrary.BinderLoop
import RpcLibrary.BinderRefinement
import RpcLibrary.BinderRuns
import RpcLibrary.BoundedWaiting
import RpcLibrary.BrokenConnection
import RpcLibrary.BubbleSort
import RpcLibrary.ByteStream
import RpcLibrary.ConcurrentCallers
import RpcLibrary.ConnectionBookkeeping
import RpcLibrary.ConnectionHandover
import RpcLibrary.ControlMessages
import RpcLibrary.CopyBack
import RpcLibrary.CrashIsolation
import RpcLibrary.Cursor
import RpcLibrary.Deployment
import RpcLibrary.DeploymentRefinement
import RpcLibrary.ExecuteMessages
import RpcLibrary.Fifo
import RpcLibrary.Framing
import RpcLibrary.HandleTerminate
import RpcLibrary.LeastRecent
import RpcLibrary.LibraryCalls
import RpcLibrary.Libserver
import RpcLibrary.Linearizability
import RpcLibrary.LocalCall
import RpcLibrary.LocateAssertion
import RpcLibrary.LocatedCalls
import RpcLibrary.MalformedExecutes
import RpcLibrary.MalformedMessages
import RpcLibrary.Message
import RpcLibrary.ObservedHandling
import RpcLibrary.OrderedMap
import RpcLibrary.OrderedSet
import RpcLibrary.ProtocolMacros
import RpcLibrary.QueueConsistency
import RpcLibrary.ReferenceBinder
import RpcLibrary.RegistrationHistory
import RpcLibrary.RemoteCall
import RpcLibrary.RemoteSort
import RpcLibrary.RemoteTermination
import RpcLibrary.RoundRobin
import RpcLibrary.Rpc
import RpcLibrary.Runs
import RpcLibrary.ServeProgress
import RpcLibrary.ServeTermination
import RpcLibrary.ServeThreads
import RpcLibrary.ServerAgreement
import RpcLibrary.ServerFunctions
import RpcLibrary.Services
import RpcLibrary.ServingProcess
import RpcLibrary.Signature
import RpcLibrary.SignatureIdentity
import RpcLibrary.SocketOwnership
import RpcLibrary.TcpServer
import RpcLibrary.TcpSocket
import RpcLibrary.TerminationInvariant
import RpcLibrary.TerminationLink
import RpcLibrary.TerminationProtocol
import RpcLibrary.TerminationRuns
import RpcLibrary.Tracing
import RpcLibrary.UnobservableFailures
