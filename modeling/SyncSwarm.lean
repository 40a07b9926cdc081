import SyncSwarm.Theorems.Offline.Kept
import SyncSwarm.Theorems.Network.Forwarding
import SyncSwarm.Theorems.Delivery.Confirmed
import SyncSwarm.Theorems.Transfer.Mixed
import SyncSwarm.Theorems.Ingest.Sinks
import SyncSwarm.Theorems.Transfer.Sink
import SyncSwarm.Theorems.Ingest.Authentic
import SyncSwarm.Theorems.Discovery.Hearsay
import SyncSwarm.Theorems.Discovery.Addresses
import SyncSwarm.Theorems.Ingest.Numbers
import SyncSwarm.Theorems.Send.Exits
import SyncSwarm.Theorems.Dht.Convergence
import SyncSwarm.Theorems.Transfer.Reservations
import SyncSwarm.Theorems.Discovery.Interfaces
import SyncSwarm.Theorems.Discovery.Hops
import SyncSwarm.Theorems.Resource.Admission
import SyncSwarm.Theorems.Discovery.PathChoice
import SyncSwarm.Theorems.Fragment.InPlace
import SyncSwarm.Theorems.Transfer.Relabel
import SyncSwarm.Discovery.Reachability
import SyncSwarm.Theorems.Discovery.Reachability
import SyncSwarm.Theorems.Resource.Safety
import SyncSwarm.Theorems.Offline.Stranded
import SyncSwarm.Theorems.Storage.Offline
import SyncSwarm.Link.Session
import SyncSwarm.Theorems.Link.Agreement
import SyncSwarm.Theorems.Link.Origin
import SyncSwarm.Theorems.Send.Routes
import SyncSwarm.Transfer.Reputation
import SyncSwarm.Theorems.Ingest.Retention
import SyncSwarm.Theorems.Send.Return
import SyncSwarm.Theorems.Direct.Exchange
import SyncSwarm.Theorems.Ingest.Once
import SyncSwarm.Theorems.Send.Memory
import SyncSwarm.Iface.Duty
import SyncSwarm.Iface.Kiss
import SyncSwarm.Lib.Json
import SyncSwarm.Link.Frames
import SyncSwarm.Theorems.Acks.Late
import SyncSwarm.Theorems.Discovery.External
import SyncSwarm.Theorems.Iface.Duty
import SyncSwarm.Theorems.Iface.Kiss
import SyncSwarm.Theorems.Link.Frames
import SyncSwarm.Theorems.Send.Sizes
import SyncSwarm.Theorems.Send.Cover
import SyncSwarm.Theorems.Transfer.Pool
import SyncSwarm.Theorems.Resource.Window
