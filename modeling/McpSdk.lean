import McpSdk.CircuitBreakerPeriods
import McpSdk.CircuitBreakerProbes
import McpSdk.BatchRequests
import McpSdk.JsonRpcConformance
import McpSdk.CompactJson
import McpSdk.IpFilter
import McpSdk.ClientIsolation
import McpSdk.McpServer
import McpSdk.HttpTransports
import McpSdk.SessionIds
import McpSdk.ConnectionAccounting
import McpSdk.SecurityGate
import McpSdk.BreakerAccounting
import McpSdk.ShardFrames
import McpSdk.DispatchCalls
import McpSdk.RequestContext
import McpSdk.ResponsePlacement
import McpSdk.OutstandingCalls
import McpSdk.SessionTables
import McpSdk.TaskCourses
import McpSdk.SubscriptionCleanup
import McpSdk.ResourceUpdates
import McpSdk.ResponseDelivery
import McpSdk.AddressBlocks
import McpSdk.ApiKeys
import McpSdk.RequestPromises
import McpSdk.CursorPages
import McpSdk.McpRegistry
import McpSdk.RegistryLists
import McpSdk.ErrorFlags
import McpSdk.FailedDispatches
import McpSdk.SessionPlacement
import McpSdk.Broadcasts
import McpSdk.TaskMessages
import McpSdk.ClientLogLevels
import McpSdk.QueueWaiters
import McpSdk.BurstSizes
import McpSdk.FailureStreaks
import McpSdk.ResourceReads
import McpSdk.StreamFraming
import McpSdk.StreamDelivery
import McpSdk.PostAnswers
import McpSdk.AnswersOnce
import McpSdk.StdioConversations
import McpSdk.SessionLifecycles
import McpSdk.ClosedStreams
import McpSdk.AdmissionRates
import McpSdk.McpMethods
import McpSdk.RegisteredCalls
import McpSdk.RequestedChanges
import McpSdk.TaskProgress
import McpSdk.AnsweredRequests
import McpSdk.LogBroadcasts
import McpSdk.PrivateStreams
