import ExActor.Machine
import ExActor.Interleaving
import ExActor.WrapCounter
import ExActor.Basic
import ExActor.Mailbox
import ExActor.BoundedFifo
import ExActor.BoundedMpscQueue
import ExActor.BoundedMpscQueueFifo
import ExActor.BoundedMpscQueueSize
import ExActor.MpscQueue
import ExActor.LinkedChain
import ExActor.MpscQueueFifo
import ExActor.MpscNodePool
import ExActor.MpscNodePoolOwners
import ExActor.MpscInstances
import ExActor.Actor
import ExActor.ActorStep
import ExActor.ActorExclusion
import ExActor.ActorAccounting
import ExActor.ActorWakeup
import ExActor.ActorCounter
import ExActor.ActorApproval
import ExActor.ActorSubmission
import ExActor.ActorDestroy
import ExActor.ActorRest
import ExActor.ActorCompletion
import ExActor.ActorFifo
import ExActor.ActivationPrefix
import ExActor.ActorPublication
import ExActor.ActorDrain
import ExActor.Registry
import ExActor.RegistryStep
import ExActor.RegistryShutdown
import ExActor.Broker
import ExActor.BrokerKnowledge
import ExActor.Cluster
import ExActor.BrokerStep
import ExActor.ClusterStep
import ExActor.BrokerMembership
import ExActor.BrokerReplies
import ExActor.BrokerWaiters
import ExActor.Joins
import ExActor.BrokerGossip
import ExActor.BrokerRequests
import ExActor.BrokerTraffic
import ExActor.Tokens
import ExActor.ClusterIntegrity
import ExActor.BrokerRevival
import ExActor.BrokerContact
import ExActor.BrokerHeartbeat
import ExActor.ClusterClocks
import ExActor.ClassLayout
import ExActor.ActorRef
import ExActor.ActorRefCasts
import ExActor.RegistryConsistency
import ExActor.RegistryLookUp
import ExActor.NetworkRequest
import ExActor.RequestReplies
import ExActor.MailboxIndex
import ExActor.RequestServer
import ExActor.RemoteCall
import ExActor.WorkSharingThreadPool
import ExActor.LightweightSemaphore
import ExActor.WorkSharingWorkers
import ExActor.ActorSystem
import ExActor.Monitor
import ExActor.PriorityThreadPool
import ExActor.ClusterDissemination
import ExActor.ActivationLimit
import ExActor.BrokerDeadlines
import ExActor.Rearming
import ExActor.PeriodicalTaskScheduler
import ExActor.SchedulerWaits
import ExActor.DrainSemaphore
import ExActor.SemaphoreDrains
import ExActor.SemaphoreReentry
import ExActor.PrioritySubQueue
import ExActor.WeakPriorityThreadPool
import ExActor.WeakPriorityAccounting
import ExActor.WeakPriorityDequeue
import ExActor.WeakPriorityLocalSlot
import ExActor.PreallocSlot
import ExActor.DistributedMode
import ExActor.PackedEncoding
import ExActor.Serialization
