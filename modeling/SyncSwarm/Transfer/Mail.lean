import SyncSwarm.Transfer.Offline

/-! A relay that holds circuits and blobs: the calls of `forwardToNextHop`, `serveReservation` and `redeliverRound`
    over the queues of store and forward. -/

namespace SyncSwarm.Transfer
open Lib

/-- Where a call of `forwardToNextHop` is: it writes to the circuit it has found, or it dials. --/
inductive ForwardPhase where
  | reserved (rc : Nat)
  | dialing
  | done
  deriving DecidableEq

structure ForwardCall where
  nextNode : String
  blob : Bytes
  phase : ForwardPhase
  deriving DecidableEq

/-- Where a call of `serveReservation` is: before its flush, in it or behind it in the read loop, or returned. --/
inductive ServePhase where
  | registered
  | flushing (flush : Nat)
  | closed
  deriving DecidableEq

structure ServeCall where
  nodeID : String
  phase : ServePhase
  deriving DecidableEq

/-- A call of `redeliverRound`, with the recipients that are still to come and the redelivery it waits for. --/
structure RoundCall where
  rest : List String
  addrByID : GoMap String String
  current : Option Nat

structure MailRelay where
  off : OfflineRelay
  /-- A circuit is known by the call of `serveReservation` that holds it. -/
  reservations : GoMap String Nat
  serves : List ServeCall
  forwards : List ForwardCall
  rounds : List RoundCall

namespace MailRelay

inductive Op where
  | forward (nextNode : String) (blob : Bytes)
  | written (forward : Nat) (ok : Bool)
  | dialed (forward : Nat) (ok : Bool)
  | serve (nodeID : String)
  | flush (serve : Nat)
  | close (serve : Nat)
  /-- The map gives the recipients in any order; `addrByID` are the active nodes. -/
  | round (recipients : List String) (addrByID : GoMap String String)
  | next (round : Nat)
  /-- A step of a call that was started, of the sweep, or of the clock. -/
  | off (a : OfflineRelay.Action)

def new : MailRelay := ⟨.new, ∅, [], [], []⟩

def reservationFor (w : MailRelay) (nodeID : String) : Option Nat :=
  if nodeID = "" then none else w.reservations.get? nodeID

def setForward (w : MailRelay) (c : Nat) (x : ForwardCall) (phase : ForwardPhase) : MailRelay :=
  { w with forwards := w.forwards.set c { x with phase } }

def setServe (w : MailRelay) (c : Nat) (x : ServeCall) (phase : ServePhase) : MailRelay :=
  { w with serves := w.serves.set c { x with phase } }

def serve (w : MailRelay) (nodeID : String) : MailRelay :=
  if nodeID = "" then w
  else
    { w with
      serves := w.serves ++ [⟨nodeID, .registered⟩]
      reservations := w.reservations.set nodeID w.serves.length }

/-- The deferred function of `serveReservation`. --/
def close (w : MailRelay) (c : Nat) (x : ServeCall) : MailRelay :=
  let w' := w.setServe c x .closed
  if w.reservations.get? x.nodeID = some c then { w' with reservations := w.reservations.delete x.nodeID } else w'

/-- One round of the loop of `redeliverRound`. --/
def redeliver (w : MailRelay) (r : Nat) (x : RoundCall) (id : String) (rest : List String) : MailRelay :=
  let skip := { w with rounds := w.rounds.set r { x with rest, current := none } }
  if (w.reservationFor id).isSome then skip
  else
    match x.addrByID.get? id with
    | none => skip
    | some addr =>
      { w with
        off := { w.off with redeliveries := w.off.redeliveries ++ [⟨id, addr, .sending (w.off.offline.queue id)⟩] }
        rounds := w.rounds.set r { x with rest, current := some w.off.redeliveries.length } }

/-- The steps of the store that no call here starts. --/
def isInner : OfflineRelay.Action → Bool
  | .store _ _ | .flush _ | .redeliver _ _ => false
  | _ => true

def step (cfg : RelayConfig) (w : MailRelay) : Op → Option MailRelay
  | .forward nextNode blob =>
    let phase := match w.reservationFor nextNode with
      | some rc => ForwardPhase.reserved rc
      | none => .dialing
    some { w with forwards := w.forwards ++ [⟨nextNode, blob, phase⟩] }
  | .written c ok => w.forwards[c]?.bind fun x =>
    match x.phase with
    | .reserved _ => some (w.setForward c x (if ok then .done else .dialing))
    | _ => none
  | .dialed c ok => w.forwards[c]?.bind fun x =>
    if x.phase = .dialing then
      let w' := w.setForward c x .done
      some (if ok then w' else { w' with off := w.off.store cfg x.nextNode x.blob })
    else none
  | .serve nodeID => some (w.serve nodeID)
  | .flush c => w.serves[c]?.bind fun x =>
    if x.phase = .registered then
      (w.off.step cfg (.flush x.nodeID)).map fun off => { w.setServe c x (.flushing w.off.flushes.length) with off }
    else none
  | .close c => w.serves[c]?.bind fun x =>
    match x.phase with
    | .flushing f => if w.off.flushes[f]?.map FlushCall.phase = some .done then some (w.close c x) else none
    | _ => none
  | .round recipients addrByID =>
    if recipients.isPerm (GoMap.keys w.off.offline) then some
      { w with rounds := w.rounds ++ [⟨recipients, addrByID, none⟩] }
    else none
  | .next r => w.rounds[r]?.bind fun x =>
    match x.rest with
    | [] => none
    | id :: rest =>
      if x.current.all fun c => w.off.redeliveries[c]?.any fun y => y.phase = .done true ∨ y.phase = .done false then
        some (w.redeliver r x id rest)
      else none
  | .off a => if isInner a then (w.off.step cfg a).map fun off => { w with off } else none

end MailRelay
end SyncSwarm.Transfer
