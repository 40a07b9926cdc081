import SyncSwarm.Transfer.Ingest
import SyncSwarm.Lib.Nearest

/-! How long the receiving side keeps the state of a transfer that comes in over other nodes. -/

namespace SyncSwarm.Transfer
open Lib Protocol Fragment

/-- In the unit of the clock, the smallest one that it tells apart. --/
def resumableStreamTTL : Nat := 3600000000000

def maxRetainedStreams : Nat := 512

structure RetainedState where
  state : State
  lastActivity : Nat

namespace RetainedState

def isResumable (r : RetainedState) : Bool := r.state.scheme.resumable && r.state.stream.isSome

def isIdle (r : RetainedState) (cutoff : Nat) : Bool :=
  r.state.stream.any fun sa => !(sa.done || cutoff < r.lastActivity)

end RetainedState

structure Retainer where
  transfers : GoMap TransferID RetainedState
  now : Nat
  /-- How many states were made since the cap was enforced; the source does not keep this. -/
  begun : Nat

namespace Retainer

inductive Action where
  | forward (pkt : Packet) (routed : Bool)
  | tick (elapsed : Nat)
  /-- A round of `sweepResumableStreams`. -/
  | sweep
  /-- `enforceRetainedStreamCap`, which a connection calls that leaves a resumable stream behind. -/
  | cap (range : GoMap.Iteration TransferID RetainedState)

def new : Retainer := ⟨∅, 0, 0⟩

/-- A whole call of `ingestForwardedFragment`; there is no next state when it panics. --/
def ingestForwardedFragment (t : Config) (rs : ReedSolomon) (w : Retainer) (pkt : Packet) (routed : Bool) :
    Option Retainer :=
  let known := w.transfers.get? pkt.id
  let r := known.getD ⟨newForwardedState pkt routed, w.now⟩
  let w' := { w with begun := if known.isSome then w.begun else w.begun + 1 }
  match r.state.ingest t rs pkt with
  | .error _ => none
  | .ok (st, .done) =>
    some { w' with transfers := w.transfers.set pkt.id ⟨st, if pkt.streaming then w.now else r.lastActivity⟩ }
  | .ok _ => some { w' with transfers := w.transfers.delete pkt.id }

def sweepResumableStreams (w : Retainer) : Retainer :=
  { w with transfers := w.transfers.filter fun _ r =>
      !(r.isResumable && decide (resumableStreamTTL ≤ w.now) && r.isIdle (w.now - resumableStreamTTL)) }

def enforceRetainedStreamCap (w : Retainer) (range : GoMap.Iteration TransferID RetainedState) : Retainer :=
  let retained := (range.order w.transfers).filter fun e => e.2.isResumable
  let sorted := sortSlice (fun a b => decide (a.2.lastActivity < b.2.lastActivity)) retained
  let dropped := (sorted.take (retained.length - maxRetainedStreams)).map fun e => e.1
  { w with transfers := w.transfers.filter fun id _ => id ∉ dropped, begun := 0 }

def step (t : Config) (rs : ReedSolomon) (w : Retainer) : Action → Option Retainer
  | .forward pkt routed => w.ingestForwardedFragment t rs pkt routed
  | .tick elapsed => some { w with now := w.now + elapsed }
  | .sweep => some w.sweepResumableStreams
  | .cap range => some (w.enforceRetainedStreamCap range)

end Retainer
end SyncSwarm.Transfer
