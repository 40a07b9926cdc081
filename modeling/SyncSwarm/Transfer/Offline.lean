import SyncSwarm.Lib.Bytes
import SyncSwarm.Lib.Map
import SyncSwarm.Lib.System

/-! Store and forward: a relay holds blobs for recipients that it cannot reach. A step is what one call does under the
    lock, one write to a connection, or one operation on the disk. -/

namespace SyncSwarm.Transfer
open Lib

def maxOfflinePerNode : Nat := 64

structure PendingBlob where
  seq : UInt64
  blob : Bytes
  expiry : Nat
  deriving DecidableEq

structure RelayConfig where
  storeForward : Bool
  offlineTTL : Nat
  hasStorage : Bool

abbrev Queues := GoMap String (List PendingBlob)

namespace Queues

def queue (m : Queues) (nodeID : String) : List PendingBlob := (m.get? nodeID).getD []

/-- The blobs that `storeOffline` drops from a queue that has become too long: the oldest. --/
def overflow (q : List PendingBlob) : List PendingBlob := q.take (q.length - maxOfflinePerNode)

def store (m : Queues) (nodeID : String) (pb : PendingBlob) : Queues :=
  let q := m.queue nodeID ++ [pb]
  GoMap.set m nodeID (q.drop (q.length - maxOfflinePerNode))

/-- A round of the locked loop of `expireOffline`. --/
def expireAt (now : Nat) (m : Queues) (nodeID : String) : Queues :=
  let kept := (m.queue nodeID).filter fun pb => now < pb.expiry
  if kept = [] then GoMap.delete m nodeID else GoMap.set m nodeID kept

def expire (m : Queues) (now : Nat) : Queues := (GoMap.keys m).foldl (expireAt now) m

def gone (m : Queues) (now : Nat) : List (String × PendingBlob) :=
  (GoMap.keys m).flatMap fun id => ((m.queue id).filter fun pb => pb.expiry ≤ now).map fun pb => (id, pb)

end Queues

abbrev OfflineDisk := List (String × PendingBlob)

namespace OfflineDisk

def deleteOffline (d : OfflineDisk) (nodeID : String) (seq : UInt64) : OfflineDisk :=
  d.filter fun e => !(e.1 = nodeID && e.2.seq = seq)

def saveOffline (d : OfflineDisk) (nodeID : String) (pb : PendingBlob) : OfflineDisk :=
  d.deleteOffline nodeID pb.seq ++ [(nodeID, pb)]

def deleteOfflineNode (d : OfflineDisk) (nodeID : String) : OfflineDisk := d.filter fun e => e.1 ≠ nodeID

end OfflineDisk

/-- Where a call of `storeOffline` is: it has its number, has put the blob into the queue, or has saved it and deletes
    what was dropped. --/
inductive StorePhase where
  | numbered
  | saving (dropped : List PendingBlob)
  | deleting (dropped : List PendingBlob)
  deriving DecidableEq

structure StoreCall where
  nodeID : String
  blob : PendingBlob
  phase : StorePhase
  deriving DecidableEq

inductive FlushPhase where
  | sending (rest : List PendingBlob)
  | done
  deriving DecidableEq

structure FlushCall where
  nodeID : String
  phase : FlushPhase
  deriving DecidableEq

inductive RedeliverPhase where
  | sending (rest : List PendingBlob)
  | clearingStore
  | done (cleared : Bool)
  deriving DecidableEq

structure RedeliverCall where
  nodeID : String
  addr : String
  phase : RedeliverPhase
  deriving DecidableEq

structure OfflineRelay where
  offline : Queues
  offSeq : UInt64
  disk : OfflineDisk
  stores : List StoreCall
  flushes : List FlushCall
  redeliveries : List RedeliverCall
  /-- What calls of `expireOffline` have taken out and not yet deleted from the disk. -/
  expired : List (String × PendingBlob)
  now : Nat
  /-- What was put into a queue, sent to its recipient without an error, and dropped from a queue that was too long. -/
  accepted : List (String × PendingBlob)
  sent : List (String × PendingBlob)
  dropped : List (String × PendingBlob)

namespace OfflineRelay

inductive Action where
  | store (nodeID : String) (blob : Bytes)
  | enqueue (store : Nat)
  | save (store : Nat)
  | unsave (store : Nat)
  /-- A new reservation of the node is served. -/
  | flush (nodeID : String)
  /-- The flush comes to its next blob; if it is to be sent, the write succeeds or fails. -/
  | flushNext (flush : Nat) (ok : Bool)
  | flushed (flush : Nat)
  | redeliver (nodeID addr : String)
  | redeliverNext (redelivery : Nat) (ok : Bool)
  | clear (redelivery : Nat)
  | clearStore (redelivery : Nat)
  | expire
  | unsaveExpired (expired : Nat)
  | tick (elapsed : Nat)

def new : OfflineRelay := ⟨∅, 0, [], [], [], [], [], 0, [], [], []⟩

def setStore (w : OfflineRelay) (c : Nat) (x : StoreCall) (phase : StorePhase) : OfflineRelay :=
  { w with stores := w.stores.set c { x with phase } }

def setFlush (w : OfflineRelay) (c : Nat) (x : FlushCall) (phase : FlushPhase) : OfflineRelay :=
  { w with flushes := w.flushes.set c { x with phase } }

def setRedelivery (w : OfflineRelay) (c : Nat) (x : RedeliverCall) (phase : RedeliverPhase) : OfflineRelay :=
  { w with redeliveries := w.redeliveries.set c { x with phase } }

def onDisk (cfg : RelayConfig) (w : OfflineRelay) (f : OfflineDisk → OfflineDisk) : OfflineRelay :=
  if cfg.hasStorage then { w with disk := f w.disk } else w

def store (cfg : RelayConfig) (w : OfflineRelay) (nodeID : String) (blob : Bytes) : OfflineRelay :=
  if !cfg.storeForward || nodeID = "" then w
  else
    { w with
      offSeq := w.offSeq + 1
      stores := w.stores ++ [⟨nodeID, ⟨w.offSeq + 1, blob, w.now + cfg.offlineTTL⟩, .numbered⟩] }

def enqueue (w : OfflineRelay) (c : Nat) (x : StoreCall) : OfflineRelay :=
  let dropped := Queues.overflow (w.offline.queue x.nodeID ++ [x.blob])
  { w.setStore c x (.saving dropped) with
    offline := w.offline.store x.nodeID x.blob
    accepted := w.accepted ++ [(x.nodeID, x.blob)]
    dropped := w.dropped ++ dropped.map fun pb => (x.nodeID, pb) }

/-- One round of the loop of `flushOffline`; the error of the write is ignored. --/
def flushNext (w : OfflineRelay) (c : Nat) (x : FlushCall) (pb : PendingBlob) (rest : List PendingBlob) (ok : Bool) :
    OfflineRelay :=
  let w' := w.setFlush c x (.sending rest)
  if w.now < pb.expiry ∧ ok = true then { w' with sent := w'.sent ++ [(x.nodeID, pb)] } else w'

/-- One round of the loop of `redeliverTo`; an error of the write ends it. --/
def redeliverNext (w : OfflineRelay) (c : Nat) (x : RedeliverCall) (pb : PendingBlob)
    (rest : List PendingBlob) (ok : Bool) :
    OfflineRelay :=
  let w' := w.setRedelivery c x (.sending rest)
  if w.now < pb.expiry then
    if ok then { w' with sent := w'.sent ++ [(x.nodeID, pb)] } else w.setRedelivery c x (.done false)
  else w'

def step (cfg : RelayConfig) (w : OfflineRelay) : Action → Option OfflineRelay
  | .store nodeID blob => some (w.store cfg nodeID blob)
  | .enqueue c => w.stores[c]?.bind fun x => if x.phase = .numbered then some (w.enqueue c x) else none
  | .save c => w.stores[c]?.bind fun x =>
      match x.phase with
      | .saving dropped => some ((w.setStore c x (.deleting dropped)).onDisk cfg (·.saveOffline x.nodeID x.blob))
      | _ => none
  | .unsave c => w.stores[c]?.bind fun x =>
      match x.phase with
      | .deleting (pb :: dropped) =>
        some ((w.setStore c x (.deleting dropped)).onDisk cfg (·.deleteOffline x.nodeID pb.seq))
      | _ => none
  | .flush nodeID => some
      { w with
        offline := GoMap.delete w.offline nodeID
        flushes := w.flushes ++ [⟨nodeID, .sending (w.offline.queue nodeID)⟩] }
  | .flushNext c ok => w.flushes[c]?.bind fun x =>
      match x.phase with
      | .sending (pb :: rest) => some (w.flushNext c x pb rest ok)
      | _ => none
  | .flushed c => w.flushes[c]?.bind fun x =>
      if x.phase = .sending [] then some ((w.setFlush c x .done).onDisk cfg (·.deleteOfflineNode x.nodeID)) else none
  | .redeliver nodeID addr => some
      { w with redeliveries := w.redeliveries ++ [⟨nodeID, addr, .sending (w.offline.queue nodeID)⟩] }
  | .redeliverNext c ok => w.redeliveries[c]?.bind fun x =>
      match x.phase with
      | .sending (pb :: rest) => some (w.redeliverNext c x pb rest ok)
      | _ => none
  | .clear c => w.redeliveries[c]?.bind fun x =>
      if x.phase = .sending [] then
        some { w.setRedelivery c x .clearingStore with offline := GoMap.delete w.offline x.nodeID }
      else none
  | .clearStore c => w.redeliveries[c]?.bind fun x =>
      if x.phase = .clearingStore then some
        ((w.setRedelivery c x (.done true)).onDisk cfg (·.deleteOfflineNode x.nodeID))
      else none
  | .expire => some { w with offline := w.offline.expire w.now, expired := w.expired ++ w.offline.gone w.now }
  | .unsaveExpired k => w.expired[k]?.map fun e =>
      ({ w with expired := w.expired.eraseIdx k }).onDisk cfg (·.deleteOffline e.1 e.2.seq)
  | .tick elapsed => some { w with now := w.now + elapsed }

end OfflineRelay
end SyncSwarm.Transfer
