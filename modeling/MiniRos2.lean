import MiniRos2.TopicTable
import MiniRos2.NodeCounts
import MiniRos2.Attach
import MiniRos2.SpinLoop
import MiniRos2.NodeLocks
import MiniRos2.EventAgree
import MiniRos2.PubSub
import MiniRos2.NodeRoster
import MiniRos2.ThreadPool
import MiniRos2.Broadcast
import MiniRos2.NodeChannel
import MiniRos2.NodeIds
import MiniRos2.JsonDelimited
import MiniRos2.TopicRoom
import MiniRos2.TopicReread
import MiniRos2.TextSize
import MiniRos2.DispatchRound
import MiniRos2.PoolWaits
import MiniRos2.FailedUpdate
import MiniRos2.PublisherEvents
import MiniRos2.SharedTopic
import MiniRos2.RegionInit
import MiniRos2.CallbackOrder
import MiniRos2.NodeCreate
import MiniRos2.RegionNames
import MiniRos2.JsonDoubles
import MiniRos2.Delivery
import MiniRos2.RegistryServer
import MiniRos2.ShmAccess
import MiniRos2.ExecutorStop
import MiniRos2.EventManager
import MiniRos2.EventIds
import MiniRos2.SubscriptionIds
import MiniRos2.RegistryBytes
import MiniRos2.UnsetMembers
import MiniRos2.UnlockedWriters
import MiniRos2.Timer
import MiniRos2.JsonBounds
import MiniRos2.JsonStandard
import MiniRos2.ShmLife
import MiniRos2.JsonMessages
import MiniRos2.EventNotification
import MiniRos2.TornRead
import MiniRos2.ShmCond
import MiniRos2.BusDelivery
