import SyncSwarm.Protocol.Packet
import SyncSwarm.Lib.Map
import SyncSwarm.Lib.Lists
import SyncSwarm.Lib.System

/-! Delivery acknowledgements: the table of transfers that wait for one, and the calls of `SendDataTracked` and
    `resolveAck` at work on it. -/

namespace SyncSwarm.Transfer
open Lib Protocol

def maxAckAttempts : Nat := 3

/-- Thirty minutes, in nanoseconds. --/
def lateAckTTL : Nat := 30 * 60 * 1000000000

def maxLateAcks : Nat := 4096

structure PendingAck where
  ch : Nat
  destKey : Bytes
  token : Bytes
  dest : String := ""
  expires : Nat := 0
  late : Bool := false
  deriving DecidableEq

/-- What an acknowledgement brings to prove where it comes from: the key that signed it, or the secret token. --/
inductive AckProof where
  | signed (signerKey : Bytes)
  | token (token : Bytes)
  deriving DecidableEq

/-- The tests of `signalAckFrom` and `signalAckToken`. --/
def PendingAck.accepts (pa : PendingAck) : AckProof → Bool
  | .signed signerKey => 0 < pa.destKey.length && pa.destKey = signerKey
  | .token token => 0 < pa.token.length && pa.token = token

abbrev PendingAcks := GoMap TransferID PendingAck

namespace PendingAcks

def register (m : PendingAcks) (id : TransferID) (ch : Nat) (destKey token : Bytes) : PendingAcks :=
  GoMap.set m id { ch, destKey, token }

def oldestLate (l : List (TransferID × PendingAck)) : Option (TransferID × PendingAck) :=
  firstMin (fun e old => e.2.expires < old.2.expires) (l.filter (·.2.late))

/-- The loop of `retainForLateAck` over the cap; each round deletes a registration or ends the loop. --/
def dropLate (iter : GoMap.Iteration TransferID PendingAck) : Nat → PendingAcks → PendingAcks
  | 0, m => m
  | rounds + 1, m =>
    if maxLateAcks < GoMap.len m then
      match oldestLate (iter.order m) with
      | some old => dropLate iter rounds (GoMap.delete m old.1)
      | none => m
    else m

def markLate (m : PendingAcks) (id : TransferID) (pa : PendingAck) (dest : String) (marked : Nat) : PendingAcks :=
  GoMap.set m id { pa with dest, expires := marked + lateAckTTL, late := true }

def sweepLate (m : PendingAcks) (now : Nat) : PendingAcks := GoMap.filter m fun _ v => !(v.late && v.expires < now)

/-- The clock is read twice: for the end of the registration, and for the sweep. --/
def retainForLateAck (iter : GoMap.Iteration TransferID PendingAck) (m : PendingAcks) (id : TransferID) (dest : String)
    (marked now : Nat) : PendingAcks :=
  match GoMap.get? m id with
  | none => m
  | some pa =>
    let m := (markLate m id pa dest marked).sweepLate now
    dropLate iter (GoMap.len m) m

/-- The locked part of `resolveAck`: the registration that the acknowledgement takes out of the table. --/
def resolve (m : PendingAcks) (id : TransferID) (proof : AckProof) : Option (PendingAck × PendingAcks) :=
  (GoMap.get? m id).bind fun pa => if pa.accepts proof then some (pa, GoMap.delete m id) else none

/-- A call that changes the table, under the lock from its beginning to its end. --/
inductive Call where
  | register (id : TransferID) (ch : Nat) (destKey token : Bytes)
  | resolve (id : TransferID) (proof : AckProof)
  | unregister (id : TransferID)
  | retain (id : TransferID) (dest : String) (marked now : Nat) (iter : GoMap.Iteration TransferID PendingAck)

def after (m : PendingAcks) : Call → PendingAcks
  | .register id ch destKey token => m.register id ch destKey token
  | .resolve id proof => ((m.resolve id proof).map Prod.snd).getD m
  | .unregister id => GoMap.delete m id
  | .retain id dest marked now iter => m.retainForLateAck iter id dest marked now

end PendingAcks

inductive SendResult where
  | confirmed
  | notConfirmed
  | canceled
  deriving DecidableEq

/-- Where a confirming call of `SendDataTracked` is: it waits for the acknowledgement of an attempt, has seen its last
    timeout, is in its deferred function, or has returned. --/
inductive SendPhase where
  | waiting (attempt : Nat)
  | givingUp
  | leaving (result : SendResult)
  | unregistering (result : SendResult)
  | returned (result : SendResult)
  deriving DecidableEq

structure SendCall where
  id : TransferID
  destNode : String
  phase : SendPhase
  deriving DecidableEq

/-- A call of `resolveAck` that has taken a registration out of the table, and whether it has reported. --/
structure Resolution where
  id : TransferID
  ack : PendingAck
  reported : Bool
  deriving DecidableEq

structure Confirmations where
  pending : PendingAcks
  calls : List SendCall
  resolutions : List Resolution
  closed : List Nat
  delivered : List (TransferID × String)
  now : Nat

namespace Confirmations

inductive Action where
  /-- The call registers and sends for the first time. -/
  | register (id : TransferID) (destNode : String) (destKey token : Bytes)
  | confirmed (call : Nat)
  | timeout (call : Nat)
  | cancel (call : Nat)
  | retain (call : Nat)
  /-- The two halves of the deferred function. -/
  | check (call : Nat)
  | unregister (call : Nat)
  /-- An acknowledgement arrives; later it is reported. -/
  | arrive (id : TransferID) (proof : AckProof)
  | report (resolution : Nat)
  | tick (elapsed : Nat)

def new : Confirmations := ⟨∅, [], [], [], [], 0⟩

def setPhase (w : Confirmations) (c : Nat) (x : SendCall) (phase : SendPhase) : Confirmations :=
  { w with calls := w.calls.set c { x with phase } }

/-- The rest of `resolveAck`: a late acknowledgement goes to `onDelivered`, if it is set. --/
def report (onDelivered : Bool) (w : Confirmations) (r : Nat) (x : Resolution) : Confirmations :=
  let w := { w with resolutions := w.resolutions.set r { x with reported := true } }
  if x.ack.late then
    if onDelivered then { w with delivered := w.delivered ++ [(x.id, x.ack.dest)] } else w
  else { w with closed := x.ack.ch :: w.closed }

/-- The last attempt gives up; any other is followed by the next. --/
def afterTimeout (attempt : Nat) : SendPhase :=
  if attempt + 1 < maxAckAttempts then .waiting (attempt + 1) else .givingUp

/-- A late registration is retained, any other is taken back. --/
def deferred (w : Confirmations) (x : SendCall) (result : SendResult) : SendPhase :=
  if (w.pending.get? x.id).any (·.late) then .returned result else .unregistering result

def step (onDelivered : Bool) (iter : GoMap.Iteration TransferID PendingAck) (w : Confirmations) :
    Action → Option Confirmations
  | .register id destNode destKey token => some
      { w with
        pending := w.pending.register id w.calls.length destKey token
        calls := w.calls ++ [⟨id, destNode, .waiting 0⟩] }
  | .confirmed c => w.calls[c]?.bind fun x =>
      match x.phase with
      | .waiting _ => if c ∈ w.closed then some (w.setPhase c x (.leaving .confirmed)) else none
      | _ => none
  | .timeout c => w.calls[c]?.bind fun x =>
      match x.phase with
      | .waiting attempt => some (w.setPhase c x (afterTimeout attempt))
      | _ => none
  | .cancel c => w.calls[c]?.bind fun x =>
      match x.phase with
      | .waiting _ => some (w.setPhase c x (.leaving .canceled))
      | _ => none
  | .retain c => w.calls[c]?.bind fun x =>
      if x.phase = .givingUp then some
        { w.setPhase c x (.leaving .notConfirmed) with
          pending := w.pending.retainForLateAck iter x.id x.destNode w.now w.now }
      else none
  | .check c => w.calls[c]?.bind fun x =>
      match x.phase with
      | .leaving result => some (w.setPhase c x (w.deferred x result))
      | _ => none
  | .unregister c => w.calls[c]?.bind fun x =>
      match x.phase with
      | .unregistering result => some { w.setPhase c x (.returned result) with pending := GoMap.delete w.pending x.id }
      | _ => none
  | .arrive id proof => some
      (match w.pending.resolve id proof with
      | some (pa, pending) => { w with pending, resolutions := w.resolutions ++ [⟨id, pa, false⟩] }
      | none => w)
  | .report r => w.resolutions[r]?.bind fun x => if x.reported then none else some (report onDelivered w r x)
  | .tick elapsed => some { w with now := w.now + elapsed }

end Confirmations
end SyncSwarm.Transfer
