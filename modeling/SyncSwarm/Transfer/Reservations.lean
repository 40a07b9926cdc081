import SyncSwarm.Transfer.Send

/-! Circuit reservations, client side. A ticker starts a loop for each relay; a loop dials, holds the connection until
    it drops, waits and dials again. -/

namespace SyncSwarm.Transfer
open Lib
open Discovery (Node)

def maxReservationRelays : Nat := 2

/-- Where the loop of `reserveWith` is: at its head, in `dialWithRetries`, in the read loop of `runReservation`, or in
    the wait before the next attempt. --/
inductive LoopPhase where
  | head
  | dialing
  | holding
  | waiting
  deriving DecidableEq

structure ReserveLoop where
  relayID : String
  relayAddr : String
  phase : LoopPhase
  deriving DecidableEq

structure Reservations where
  running : Bool
  needsRelay : Bool
  /-- The nodes that `GetActiveNodes` returns. -/
  activeNodes : List Node
  excommunions : List String
  /-- The relays for which a loop was started, with the loops. -/
  reservationClients : List ReserveLoop
  reservedIDs : List String
  deriving DecidableEq

namespace Reservations

def init (needsRelay : Bool) : Reservations :=
  { running := true, needsRelay, activeNodes := [], excommunions := [], reservationClients := [], reservedIDs := [] }

def eligible (s : Sender) (w : Reservations) (n : Node) : Bool :=
  !(n.id = s.selfID || n.pubKey.length = 0 || !hasCapability n.capabilities "relay" || n.id ∈ w.excommunions)

/-- The loop of `ensureReservations` over the active nodes, with its count. --/
def startLoops (s : Sender) (w : Reservations) : Nat → List Node → List ReserveLoop → List ReserveLoop
  | _, [], loops => loops
  | active, n :: nodes, loops =>
    if active ≥ maxReservationRelays then loops
    else if !eligible s w n then startLoops s w active nodes loops
    else if n.id ∈ loops.map ReserveLoop.relayID then startLoops s w active nodes loops
    else startLoops s w (active + 1) nodes (loops ++ [⟨n.id, s.peerDialAddr n, .head⟩])

/-- `ensureReservations`, with the active nodes in the order in which they come. --/
def ensureReservations (s : Sender) (w : Reservations) (nodes : List Node) : Reservations :=
  if !w.needsRelay then w
  else if w.reservationClients.length ≥ maxReservationRelays then w
  else { w with reservationClients := startLoops s w w.reservationClients.length nodes w.reservationClients }

def phase (w : Reservations) (relayID : String) : Option LoopPhase :=
  (w.reservationClients.find? (·.relayID = relayID)).map ReserveLoop.phase

def setPhase (w : Reservations) (relayID : String) (phase : LoopPhase) : Reservations :=
  { w with reservationClients := w.reservationClients.map fun l => if l.relayID = relayID then { l with phase } else l }

def setReserved (w : Reservations) (relayID : String) (ok : Bool) : Reservations :=
  { w with reservedIDs :=
      if ok then (if relayID ∈ w.reservedIDs then w.reservedIDs else w.reservedIDs ++ [relayID])
      else w.reservedIDs.filter (· ≠ relayID) }

inductive Event where
  | needsRelay (v : Bool)
  | peers (nodes : List Node)
  | excommunions (ids : List String)
  /-- The ticker fires; the active nodes come in any order. -/
  | tick (nodes : List Node)
  | attempt (relayID : String)
  /-- The attempt has a connection on which the request was written, or has failed. -/
  | dialed (relayID : String) (ok : Bool)
  | dropped (relayID : String)
  /-- A loop has waited for `reservationRetry`. -/
  | retry (relayID : String)
  | stop
  | ended (relayID : String)
  deriving DecidableEq

def step (s : Sender) (w : Reservations) : Event → Option Reservations
  | .needsRelay v => some { w with needsRelay := v }
  | .peers nodes => some { w with activeNodes := nodes }
  | .excommunions ids => some { w with excommunions := ids }
  | .tick nodes => if w.running ∧ nodes.isPerm w.activeNodes then some (w.ensureReservations s nodes) else none
  | .attempt id => if w.running ∧ w.phase id = some .head then some (w.setPhase id .dialing) else none
  | .dialed id ok =>
    if w.phase id = some .dialing then
      if ok then some ((w.setReserved id true).setPhase id .holding)
      else some ((w.setReserved id false).setPhase id .waiting)
    else none
  | .dropped id => if w.phase id = some .holding then some ((w.setReserved id false).setPhase id .waiting) else none
  | .retry id => if w.phase id = some .waiting then some (w.setPhase id .head) else none
  | .stop => some { w with running := false }
  | .ended id =>
    if !w.running ∧ (w.phase id = some .head ∨ w.phase id = some .waiting) then
      some { w with reservationClients := w.reservationClients.filter (·.relayID ≠ id) }
    else none

end Reservations
end SyncSwarm.Transfer
