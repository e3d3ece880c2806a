import EchoServers.BenchAgreement
import EchoServers.BenchJournal
import EchoServers.BenchRuns
import EchoServers.BenchWindow
import EchoServers.BoundedFifos
import EchoServers.Dispatching
import EchoServers.EchoAgreement
import EchoServers.EchoClient
import EchoServers.EchoService
import EchoServers.EchoTraffic
import EchoServers.EpollAlert
import EchoServers.EpollEchoes
import EchoServers.EpollEffects
import EchoServers.EpollGraceful
import EchoServers.EpollList
import EchoServers.EpollListRuns
import EchoServers.EpollMain
import EchoServers.EpollRegistry
import EchoServers.EpollRuns
import EchoServers.EpollServer
import EchoServers.EpollShutdown
import EchoServers.FailedConnections
import EchoServers.HostLedger
import EchoServers.JsonGrammar
import EchoServers.LinkedChains
import EchoServers.MeasContainer
import EchoServers.PageTables
import EchoServers.PendingEdges
import EchoServers.PollEchoes
import EchoServers.PollMain
import EchoServers.PollRegistry
import EchoServers.PollRuns
import EchoServers.PollServer
import EchoServers.PollServicing
import EchoServers.PollShutdown
import EchoServers.PollVector
import EchoServers.PollVectorRuns
import EchoServers.RingCounters
import EchoServers.SavedBench
import EchoServers.ServerBenchmark
import EchoServers.ServerUtils
import EchoServers.SocketKernel
import EchoServers.StateTriples
import EchoServers.SwapRemoval
import EchoServers.TimeUtils
import EchoServers.TimespecBalance
import EchoServers.TimespecDelta
import EchoServers.TimespecOrder
import EchoServers.UringBench
import EchoServers.UringCapacity
import EchoServers.UringClients
import EchoServers.UringCompletions
import EchoServers.UringEchoes
import EchoServers.UringEnter
import EchoServers.UringFifo
import EchoServers.UringGuarantees
import EchoServers.UringHandlers
import EchoServers.UringInvariant
import EchoServers.UringKernelSteps
import EchoServers.UringMain
import EchoServers.UringMemory
import EchoServers.UringOwnership
import EchoServers.UringQueues
import EchoServers.UringReferences
import EchoServers.UringRings
import EchoServers.UringServer
import EchoServers.UringShutdown
import EchoServers.UringSilence
import EchoServers.UringStreams
import EchoServers.UringSubmission
import EchoServers.UringTracker
import EchoServers.UringTrackerRuns
import EchoServers.UringTraffic
import EchoServers.Utils
