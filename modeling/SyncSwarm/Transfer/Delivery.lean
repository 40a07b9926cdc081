import SyncSwarm.Protocol.Payloads
import SyncSwarm.Transfer.Acks
import SyncSwarm.Transfer.Ingest

/-! Confirmed delivery: a node that sends, the destination that signs acknowledgements, and a network that
    may do what it likes. -/

namespace SyncSwarm.Transfer
open Lib Protocol Fragment

/-! ### The destination -/

def marshaledLen (pkt : SignedPacket) : Nat := (marshalBinary pkt).length

def padPacket (padCell : Int) (pkt : SignedPacket) : SignedPacket :=
  if padCell ≤ 0 then pkt
  else
    let pkt := { pkt with pad := [] }
    let rem := marshaledLen pkt % padCell.toNat
    if rem = 0 then pkt else { pkt with pad := List.replicate (padCell.toNat - rem) 0 }

structure Destination where
  cfg : Config
  rs : ReedSolomon
  sigs : Signatures
  text : Int → Bytes
  signKey : Bytes
  padCell : Int

namespace Destination

def key (d : Destination) : Bytes := d.sigs.publicKey d.signKey

def selfID (d : Destination) : String := deriveNodeID d.sigs d.key

/-- An acknowledgement as `NewPacket` makes it. Its ID is a hash of the time, until another one is set. --/
def newAck (d : Destination) (now : Int) (destNode : String) : SignedPacket :=
  { SignedPacket.new d.sigs d.text .acknowledgement [] "" destNode now with sourceNode := d.selfID }

def finishAck (d : Destination) (ack : SignedPacket) : SignedPacket := (padPacket d.padCell ack).sign d.sigs d.signKey

def sendAck (d : Destination) (now : Int) (active : Bool) (sourceID : String) (id : TransferID) : Option SignedPacket :=
  if sourceID = "" ∨ sourceID = d.selfID ∨ active = false then none else
    some (d.finishAck { d.newAck now sourceID with id })

def sendRoutedAck (d : Destination) (now : Int) (originID : String) (id : TransferID) : Option SignedPacket :=
  if originID = "" ∨ originID = d.selfID then none else some (d.finishAck { d.newAck now originID with id })

/-- What the destination signs for an acknowledgement that it owes; a reply block is sent as it is. `active` says
    whether the source is known and active. --/
def answer (d : Destination) (now : Int) (active : Bool) : Ack → Option SignedPacket
  | .reply _ => none
  | .direct source id => d.sendAck now active source id
  | .routed origin id => d.sendRoutedAck now origin id

/-- What `handleConnection` signs: it answers the first packet of a connection and every chunk, to the source that they
    name. The answer to the first packet says where a stream is to be resumed. --/
def connAcks (d : Destination) (w : Receiver) (now : Int) (source : String) : Action → List SignedPacket
  | .connect pkt =>
    let stream := w.conns.getLast?.bind fun x => w.objects[x.ref]?.bind (·.stream)
    let ack := d.newAck now pkt.sourceNode
    [d.finishAck (if pkt.resumable then { ack with chunkNumber := (stream.map (·.nextFlush)).getD 0 } else ack)]
  | .ack _ => [d.finishAck (d.newAck now source)]
  | _ => []

end Destination

/-- What else a node signs: other packets, its announces, and the transcript of a link proof. --/
inductive Statement where
  | packet (pkt : SignedPacket)
  | announce (ap : AnnouncePayload)
  | linkProof (linkID : FixedBytes 16) (ephPub : FixedBytes 32)

namespace Statement

def bytes : Statement → Bytes
  | packet pkt => pkt.canonicalBytes
  | announce ap => ap.signedBytes
  | linkProof linkID ephPub => linkID.val ++ ephPub.val

/-- Acknowledgements are signed elsewhere, and a node announces itself. --/
def Of (d : Destination) : Statement → Prop
  | packet pkt => pkt.type.code ≠ PacketType.acknowledgement.code
  | announce ap => ap.destHash = d.selfID
  | linkProof _ _ => True

instance (d : Destination) : ∀ m, Decidable (Of d m)
  | packet pkt => inferInstanceAs (Decidable (pkt.type.code ≠ PacketType.acknowledgement.code))
  | announce ap => inferInstanceAs (Decidable (ap.destHash = d.selfID))
  | linkProof _ _ => inferInstanceAs (Decidable True)

end Statement

def StreamAssembler.acks (sa : StreamAssembler) : List Ack :=
  sa.events.filterMap fun e =>
    match e with
    | .finish _ ack => ack
    | .write _ => none

def Receiver.owed (w : Receiver) : List Ack :=
  w.dispatched.flatMap (·.acks) ++ w.objects.flatMap fun st => (st.stream.map (·.acks)).getD []

/-! ### The sender -/

/-- An acknowledgement that `handleConnection` accepts. --/
def directAck (S : Signatures) (data : Bytes) : Option (TransferID × AckProof) :=
  (unmarshalBinary data).bind fun pkt =>
    if pkt.verify S ∧ pkt.sourceNode = pkt.signerID S ∧ pkt.type = .acknowledgement then some
      (pkt.id, .signed pkt.signerKey)
    else none

/-- An acknowledgement that `ingestRoutedFragment` accepts. --/
def routedAck (S : Signatures) (inner : Bytes) : Option (TransferID × AckProof) :=
  (unmarshalBinary inner).bind fun pkt =>
    if pkt.type = .acknowledgement ∧ pkt.verify S then some (pkt.id, .signed pkt.signerKey) else none

/-- An acknowledgement in the last layer of an onion, in `handleRelayBlob`. A probe that comes home is not one, and
    changes nothing here. --/
def onionAck (inner : Bytes) : Option (TransferID × AckProof) :=
  (unmarshalBinary inner).bind fun pkt =>
    if pkt.decoy = false ∧ pkt.type = .acknowledgement then some (pkt.id, .token pkt.payload) else none

/-! ### Both -/

structure Delivery where
  sender : Confirmations
  dest : Receiver
  /-- The messages that the destination has signed. -/
  signed : List Bytes

namespace Delivery

inductive Action where
  | send (a : Confirmations.Action)
  /-- A step of the destination, which works on whatever the network hands to it. The source is the one that a chunk
      names. -/
  | receive (a : Transfer.Action) (now : Int) (source : String)
  /-- The destination sends an acknowledgement. -/
  | acknowledge (ack : Ack) (now : Int) (active : Bool)
  | state (m : Statement)
  /-- The network hands bytes to the sender: on a connection, routed hop by hop, or in an onion. -/
  | direct (data : Bytes)
  | routed (inner : Bytes)
  | onion (inner : Bytes)

def new : Delivery := ⟨.new, .new, []⟩

section
variable (onDelivered : Bool) (iter : GoMap.Iteration TransferID PendingAck) (d : Destination)

def hear (w : Delivery) : Option (TransferID × AckProof) → Option Delivery
  | some (id, proof) => (w.sender.step onDelivered iter (.arrive id proof)).map fun sender => { w with sender }
  | none => some w

def sign (w : Delivery) (pkts : List SignedPacket) : Delivery :=
  { w with signed := pkts.map SignedPacket.canonicalBytes ++ w.signed }

/-- An acknowledgement arrives as bytes only. --/
def step (w : Delivery) : Action → Option Delivery
  | .send (.arrive _ _) => none
  | .send a => (w.sender.step onDelivered iter a).map fun sender => { w with sender }
  | .receive a now source => (w.dest.step d.cfg d.rs a).map fun dest =>
    sign { w with dest } (d.connAcks dest now source a)
  | .acknowledge ack now active => if ack ∈ w.dest.owed then some (w.sign (d.answer now active ack).toList) else none
  | .state m => if m.Of d then some { w with signed := m.bytes :: w.signed } else none
  | .direct data => w.hear onDelivered iter (directAck d.sigs data)
  | .routed inner => w.hear onDelivered iter (routedAck d.sigs inner)
  | .onion inner => w.hear onDelivered iter (onionAck inner)

end

end Delivery
end SyncSwarm.Transfer
