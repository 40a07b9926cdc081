import SyncSwarm.Transfer.Send

/-! What a send looks like on the wire: the signed packets of its frames, and the decoys that are to look like them. -/

namespace SyncSwarm.Transfer
open Lib Protocol Fragment Encryption
open Discovery (Node)
open Routing (Peer Hop)

def maxSubChunkSize : Int := 4 * 1024 * 1024

def coverPayloadSize : Nat := 512

namespace Sender
variable (s : Sender)

/-! ### Settings -/

def setSubChunkSize (size : Int) : Sender := { s with subChunkSize := if size ≤ 0 then maxSubChunkSize else size }

/-- The size of the cells; the other two settings change when packets are sent. --/
def setAnonymity (padCell : Int) : Sender := { s with padCell := if padCell < 0 then 0 else padCell }

/-! ### Frames -/

/-- The packet that `sendFragmentDirect` writes for a piece. --/
def chunkPacket (signKey : Bytes) (destGroup destNode : String) (now : Int) (pkt : Packet) : SignedPacket :=
  ({ SignedPacket.new s.sigs s.text .data pkt.payload destGroup destNode now with toPacket := pkt } :
    SignedPacket).sign s.sigs signKey

/-- The packet that `sendRelayBlob` writes. --/
def relayPacket (signKey : Bytes) (now : Int) (blob : Bytes) : SignedPacket :=
  ({ SignedPacket.new s.sigs s.text .relay blob "" "" now with sourceNode := s.selfID } :
    SignedPacket).sign s.sigs signKey

/-! ### Cover traffic -/

/-- What a decoy is drawn with: the relay where it ends, its bytes, the time, and the number of
    seals before its onion. --/
structure Decoy where
  index : Nat
  payload : FixedBytes coverPayloadSize
  now : Int
  draw : Nat

def buildDecoyInner (d : Decoy) : Bytes :=
  marshalBinary
    (padPacket s.padCell { SignedPacket.new s.sigs s.text .data d.payload.val "" "" d.now with decoy := true })

/-- Without enough other relays the decoy goes straight to where it ends. --/
def coverPath (relays : List Peer) (dest : Peer) : List Hop :=
  (Routing.buildPath s.net dest (relays.filter (·.id ≠ dest.id)) (s.hopCount - 1)).toOption.getD [dest.hop]

/-- The path of a decoy, and the blob that its first hop is handed. --/
def cover (relays : List Peer) (d : Decoy) : Option (List Hop × Bytes) :=
  if s.nodePriv.isNone ∨ s.hopCount < 1 then none
  else relays[d.index % relays.length]?.bind fun dest =>
    let hops := s.coverPath relays dest
    let built : Except String Bytes := do
      let onionHops ← s.toOnionHops hops
      s.hybrid.buildOnion d.draw onionHops (s.buildDecoyInner d)
    built.toOption.map fun blob => (hops, blob)

def sendCover (excommunicated : String → Bool) (nodes : List Node) (d : Decoy) : Tries Emission Bool :=
  match s.cover (s.relayPeers excommunicated nodes s.selfID) d with
  | some (first :: _, blob) => s.sendRelayHop first.nodeID first.address blob
  | _ => pure false

end Sender
end SyncSwarm.Transfer
