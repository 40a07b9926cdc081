import SyncSwarm.Transfer.Ingest
import SyncSwarm.Protocol.Signed

/-! The connections of the receiving node with the packets as they were signed. Beside each transfer state stands its
    history. -/

namespace SyncSwarm.Transfer
open Lib Protocol Fragment

def shouldAcceptTransfer (self : String) (p : SignedPacket) : Bool :=
  p.destNode = self || p.destNode = "" && (p.destGroup = "ANY" || p.destGroup = "ALL")

/-- The signature is good, and the sender named in the packet is the signer. --/
def authentic (S : Signatures) (p : SignedPacket) : Bool := p.verify S && p.sourceNode = p.signerID S

/-- What `handleConnection` asks of the first packet of a transfer. Reservations, relayed packets and delivery
    acks are not transfers. --/
def opensTransfer (S : Signatures) (self : String) (p : SignedPacket) : Bool :=
  authentic S p && !(p.type = .reservation || p.type = .relay || p.type = .acknowledgement) &&
    shouldAcceptTransfer self p

/-- How a packet came to the state that absorbed it. --/
inductive Origin where
  | conn (c : Nat) (p : SignedPacket)
  | forwarded (pkt : Packet)
  deriving DecidableEq

def State.absorb (st : State) (t : Config) (rs : ReedSolomon) : Origin → Except Failure State
  | .conn _ p => st.processChunk t rs p.toPacket
  | .forwarded pkt => (st.ingest t rs pkt).map (·.1)

def State.absorbAll (st : State) (t : Config) (rs : ReedSolomon) (os : List Origin) : Except Failure State :=
  os.foldlM (fun st o => st.absorb t rs o) st

structure History where
  /-- The first packet of the connection that created the state; a forwarded packet has none. -/
  creator : Option SignedPacket
  absorbed : List Origin := []
  /-- The connections that were told where to resume, and the block. -/
  disclosed : List (Nat × UInt32) := []
  deriving DecidableEq

namespace History

def disclose (h : History) (c : Nat) (p : SignedPacket) (st : State) : History :=
  match p.resumable, st.stream with
  | true, some sa => { h with disclosed := h.disclosed ++ [(c, sa.nextFlush)] }
  | _, _ => h

def absorb (h : History) (o : Origin) : History := { h with absorbed := h.absorbed ++ [o] }

end History

structure Inbound where
  rx : Receiver
  inits : List SignedPacket
  histories : List History

namespace Inbound

inductive Event where
  /-- A connection comes in with its first packet. -/
  | accept (p : SignedPacket)
  | read (c : Nat) (p : SignedPacket)
  | other (a : Action)

def new : Inbound := ⟨.new, [], []⟩

/-- The connection has the last place; its state is an old one, or the last one. --/
def accepted (n : Inbound) (p : SignedPacket) (rx : Receiver) : Inbound :=
  let histories :=
    if rx.objects.length = n.rx.objects.length then n.histories else n.histories ++ [{ creator := some p }]
  let c := n.rx.conns.length
  { rx
    inits := n.inits ++ [p]
    histories :=
      (rx.conns[c]?.bind fun x => rx.objects[x.ref]?.map fun st =>
        histories.modify x.ref (·.disclose c p st)).getD histories }

/-- The state at the place has absorbed a packet, if the process is still there. --/
def absorbed (n : Inbound) (ref : Nat) (o : Origin) (rx : Receiver) : Inbound :=
  { n with rx, histories := if rx.down then n.histories else n.histories.modify ref (·.absorb o) }

def step (S : Signatures) (self : String) (t : Config) (rs : ReedSolomon) (n : Inbound) : Event → Option Inbound
  | .accept p =>
    if opensTransfer S self p then (n.rx.step t rs (.connect p.toPacket)).map (n.accepted p) else some n
  | .read c p =>
    if p.verify S then
      n.rx.conns[c]?.bind fun x => (n.rx.step t rs (.chunk c p.toPacket)).map (n.absorbed x.ref (.conn c p))
    else (n.rx.step t rs (.fail c)).map fun rx => { n with rx }
  | .other (.connect _) => none
  | .other (.chunk _ _) => none
  | .other (.forward pkt routed) => (n.rx.step t rs (.forward pkt routed)).map fun rx =>
      { n with
        rx
        histories :=
  if rx.objects.length = n.rx.objects.length then n.histories else n.histories ++ [{ creator := none }] }
  | .other (.process c) =>
    n.rx.calls[c]?.bind fun x => (n.rx.step t rs (.process c)).map (n.absorbed x.ref (.forwarded x.pkt))
  | .other a => (n.rx.step t rs a).map fun rx => { n with rx }

end Inbound
end SyncSwarm.Transfer
