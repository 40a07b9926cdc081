import SyncSwarm.Transfer.Send

/-! Onion forwarding: what a node does with a blob that it is handed. -/

namespace SyncSwarm.Transfer
open Lib Protocol Encryption

/-- The node that a blob is handed to, and the blob; `hosts` says which node a connection to an address reaches. --/
def Emission.lands (hosts : String → String) : Emission → Option (String × Bytes)
  | .write addr (.relay blob) true => some (hosts addr, blob)
  | .sendRelay nodeID blob true => some (nodeID, blob)
  | _ => none

def landed (hosts : String → String) (emitted : List Emission) : List (String × Bytes) :=
  emitted.filterMap (·.lands hosts)

/-- How a relay hands a blob on: over the circuit that the next node holds with it, or over a connection or a Link. What
    gets through by neither is stored. --/
inductive Onward where
  | circuit
  | network
  | stored
  deriving DecidableEq

inductive Fate where
  | dropped
  | decoy
  | acknowledged (id : TransferID) (token : Bytes)
  /-- `ingestForwardedFragment`; `raw` is what the packet was read from. -/
  | ingested (raw : Bytes) (inner : SignedPacket)
  | forwarded (way : Onward) (nextNode : String) (blob : Bytes)

namespace Sender
variable (s : Sender)

/-- `circuits` says with which nodes a circuit is held, and whether a write over it succeeds. --/
def forwardToNextHop (circuits : String → Option Bool) (nextNode nextAddr : String) (blob : Bytes) :
    Tries Emission Onward :=
  if nextNode ≠ "" ∧ circuits nextNode = some true then pure .circuit
  else do
    let ok ← s.sendRelayHop nextNode nextAddr blob
    pure (if ok then .network else .stored)

/-- What the destination of a blob does with the packet in it. --/
def deliverInner (raw : Bytes) : Fate :=
  match unmarshalBinary raw with
  | none => .dropped
  | some inner =>
    if inner.decoy then .decoy
    else if inner.type = .acknowledgement then .acknowledged inner.id inner.payload
    else .ingested raw inner

def handleRelayBlob (circuits : String → Option Bool) (blob : Bytes) : Tries Emission Fate :=
  match s.nodePriv with
  | none => pure .dropped
  | some priv =>
    match s.hybrid.peelOnion priv blob with
    | .error _ => pure .dropped
    | .ok peel =>
      if peel.isFinal then pure (deliverInner peel.inner)
      else do
        let way ← s.forwardToNextHop circuits peel.nextNode peel.nextAddr peel.inner
        pure (.forwarded way peel.nextNode peel.inner)

end Sender

/-- What goes over a circuit lands at the node that holds it. --/
def Fate.lands : Fate → List (String × Bytes)
  | .forwarded .circuit nextNode blob => [(nextNode, blob)]
  | _ => []

def Fate.isStored : Fate → Bool
  | .forwarded .stored _ _ => true
  | _ => false

structure Swarm where
  platform : Platform
  node : String → Sender
  same : ∀ id, (node id).toPlatform = platform
  /-- The node that a connection to the address reaches. -/
  hosts : String → String

namespace Forwarding

def handled (sw : Swarm) (x : String × Bytes) (circuits : String → Option Bool) (answers : Nat → Bool) :
    Tried Emission Fate :=
  ((sw.node x.1).handleRelayBlob circuits x.2).run answers

end Forwarding
end SyncSwarm.Transfer
