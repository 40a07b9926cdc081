import SyncSwarm.Lib.System
import SyncSwarm.Link.Resource

/-! One sender and one receiver of a resource, and the two channels between them, which lose, repeat, delay and reorder
    frames, but make none up. -/

namespace SyncSwarm.Link
open Lib

structure Arrival where
  frame : Bytes
  now : Int
  order : List ResID

def ResourceReceiver.feedAll (sha256 : Bytes → Hash) :
    ResourceReceiver → List Arrival → ResourceReceiver × List (ResID × Bytes)
  | r, [] => (r, [])
  | r, a :: as =>
    let out := r.feed sha256 a.frame a.now a.order
    let rest := out.receiver.feedAll sha256 as
    (rest.1, out.completed ++ rest.2)

structure Exchange where
  sender : ResourceSender
  receiver : ResourceReceiver
  /-- The frames on the way to the receiver. --/
  toRecv : List Bytes
  toSend : List Bytes
  started : Bool
  clock : Int
  completed : List (ResID × Bytes)

namespace Exchange

inductive Action where
  | start
  | tick
  | timeout
  /-- The frame at place `i` reaches the receiver; `order` is the order in which it ranges over a full map. -/
  | recv (i : Nat) (order : List ResID)
  /-- The frame at place `i` reaches the sender. -/
  | ack (i : Nat)
  | dropRecv (i : Nat)
  | dupRecv (i : Nat)
  | dropAck (i : Nat)
  | dupAck (i : Nat)
  deriving DecidableEq

structure Event where
  elapsed : Nat
  act : Action
  deriving DecidableEq

def fromSender (x : Exchange) (out : ResourceSender × List Bytes) : Exchange :=
  { x with sender := out.1, toRecv := x.toRecv ++ out.2 }

def fromReceiver (x : Exchange) (out : Fed) : Exchange :=
  { x with receiver := out.receiver, toSend := x.toSend ++ out.sent, completed := x.completed ++ out.completed }

def perform (sha256 : Bytes → Hash) (x : Exchange) : Action → Option Exchange
  | .start => if x.started then none else some { x.fromSender (x.sender.start x.clock) with started := true }
  | .tick => if x.started then some (x.fromSender (x.sender.tick x.clock)) else none
  | .timeout => some { x with sender := x.sender.waitTimeout }
  | .recv i order => x.toRecv[i]?.map fun frame =>
      { x with toRecv := x.toRecv.eraseIdx i }.fromReceiver (x.receiver.feed sha256 frame x.clock order)
  | .ack i => x.toSend[i]?.map fun frame =>
      { x with toSend := x.toSend.eraseIdx i }.fromSender (x.sender.feed frame x.clock)
  | .dropRecv i => some { x with toRecv := x.toRecv.eraseIdx i }
  | .dupRecv i => some { x with toRecv := x.toRecv ++ x.toRecv[i]?.toList }
  | .dropAck i => some { x with toSend := x.toSend.eraseIdx i }
  | .dupAck i => some { x with toSend := x.toSend ++ x.toSend[i]?.toList }

def step (sha256 : Bytes → Hash) (x : Exchange) (e : Event) : Option Exchange :=
  perform sha256 { x with clock := x.clock + e.elapsed } e.act

/-- A new sender, and a receiver with room that has never heard of the resource. It may be holding, and
    remembering, any other resources. --/
structure Initial (sha256 : Bytes → Hash) (id : ResID) (data : Bytes) (partSize window rto : Int) (x : Exchange) :
    Prop where
  sender : newResourceSender sha256 id data partSize window rto = .ok x.sender
  fresh : x.receiver.byID.get? id = none
  unfinished : x.receiver.finished.get? id = none
  room : x.receiver.byID.len < x.receiver.limit
  toRecv : x.toRecv = []
  toSend : x.toSend = []
  started : x.started = false
  completed : x.completed = []

end Exchange
end SyncSwarm.Link
