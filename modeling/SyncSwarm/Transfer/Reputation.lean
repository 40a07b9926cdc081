import SyncSwarm.Transfer.Forwarding

/-! Blobs that come back to the node that made them, and the standing of the relays that it challenges with them. -/

namespace SyncSwarm.Transfer
open Lib Protocol Encryption
open Discovery (Node)

/-- How a node can be reached: over its circuits with the relays at which it has reservations, and by a connection. --/
structure Reach where
  reserved : List String
  dialable : Bool

namespace Swarm
variable (sw : Swarm)

def nextNode (x : String × Bytes) : Option String :=
  (sw.node x.1).nodePriv.bind fun priv => (sw.platform.hybrid.peelOnion priv x.2).toOption.map (·.nextNode)

/-- What a node that follows the program does with a blob, when nothing is lost between nodes that can be reached. --/
def passOn (r : Reach) (self : String) (x : String × Bytes) : Tried Emission Fate :=
  Forwarding.handled sw x (fun nodeID => if nodeID = self ∧ x.1 ∈ r.reserved then some true else none)
    fun _ => sw.nextNode x ≠ some self || r.dialable

/-- What a blob comes to that is handed on, at most `n` times, until it is at `self`. --/
def comesHome (r : Reach) (self : String) : Nat → String × Bytes → Option Fate
  | 0, _ => none
  | n + 1, x =>
    let out := sw.passOn r self x
    match landed sw.hosts out.done ++ out.value.lands with
    | y :: _ => comesHome r self n y
    | [] => if x.1 = self then some out.value else none

end Swarm

/-! ### Reputation -/

def maxProbeRelays : Nat := 8

structure ReputationConfig where
  strikeLimit : Nat
  penance : Nat

structure Standing where
  relayStrikes : GoMap String Nat
  excommunions : GoMap String Nat

namespace Standing

def new : Standing := ⟨∅, ∅⟩

/-- An excommunication that is over is lifted. --/
def isExcommunicated (st : Standing) (now : Nat) (relayID : String) : Bool × Standing :=
  match st.excommunions.get? relayID with
  | none => (false, st)
  | some until_ =>
    if now < until_ then (true, st)
    else (false, ⟨GoMap.delete st.relayStrikes relayID, GoMap.delete st.excommunions relayID⟩)

def recordProbe (cfg : ReputationConfig) (st : Standing) (now : Nat) (relayID : String) (ok : Bool) : Standing :=
  if ok then { st with relayStrikes := GoMap.delete st.relayStrikes relayID }
  else
    let strikes := (st.relayStrikes.get? relayID).getD 0 + 1
    if cfg.strikeLimit ≤ strikes then
      ⟨GoMap.delete st.relayStrikes relayID, GoMap.set st.excommunions relayID (now + cfg.penance)⟩
    else { st with relayStrikes := GoMap.set st.relayStrikes relayID strikes }

end Standing

structure Challenge where
  probeID : TransferID
  stamp : Int
  draw : Nat
  /-- `sendProbeBlob` succeeds. -/
  sent : Bool
  reach : Reach
  /-- What comes of it when the relay does not follow the program. -/
  other : Bool
  now : Nat

namespace Sender
variable (s : Sender)

def selfAddr : String := joinHostPort s.selfHost (toString s.dataPort)

def probe (c : Challenge) : SignedPacket :=
  { SignedPacket.new s.sigs s.text .acknowledgement [] "" "" c.stamp with id := c.probeID }

def probeOnion (c : Challenge) (priv : Bytes) (relay : Node) : Except String Bytes := do
  let relayPub ← s.newPublicKey relay.pubKey
  s.hybrid.buildOnion c.draw
    [⟨relay.id, s.peerDialAddr relay, some relayPub⟩, ⟨s.selfID, s.selfAddr, some (s.hybrid.publicKey priv)⟩]
      (marshalBinary (s.probe c))

/-- The relays that are challenged in a round, and the standing once they were looked up. --/
def probeTargets (now : Nat) : List Node → Nat → Standing → List Node × Standing
  | [], _, st => ([], st)
  | n :: nodes, left, st =>
    if n.id = s.selfID ∨ n.pubKey.length = 0 ∨ !hasCapability n.capabilities "relay" then probeTargets now nodes left st
    else
      let (out, st) := st.isExcommunicated now n.id
      if out then probeTargets now nodes left st
      else if left ≤ 1 then ([n], st)
      else
        let (more, st) := probeTargets now nodes (left - 1) st
        (n :: more, st)

end Sender

structure Prober where
  swarm : Swarm
  self : String
  faithful : String → Bool
  cfg : ReputationConfig

namespace Prober
variable (p : Prober)

inductive Action where
  /-- A round, with what `GetActiveNodes` returns. -/
  | round (now : Nat) (nodes : List Node) (challenge : Node → Challenge)
  /-- A relay is looked up by `relayPeers`. -/
  | look (now : Nat) (relayID : String)

def probeRelay (priv : Bytes) (c : Challenge) (relay : Node) : Bool :=
  match (p.swarm.node p.self).probeOnion c priv relay with
  | .error _ => false
  | .ok blob =>
    c.sent &&
      if p.faithful relay.id then
        match p.swarm.comesHome c.reach p.self 2 (p.swarm.hosts ((p.swarm.node p.self).peerDialAddr relay), blob) with
        | some (.acknowledged id _) => id = c.probeID
        | _ => false
      else c.other

def probeRound (st : Standing) (now : Nat) (nodes : List Node) (challenge : Node → Challenge) : Standing :=
  match (p.swarm.node p.self).nodePriv with
  | none => st
  | some priv =>
    let (targets, st) := (p.swarm.node p.self).probeTargets now nodes maxProbeRelays st
    targets.foldl (fun st n => st.recordProbe p.cfg (challenge n).now n.id (p.probeRelay priv (challenge n) n)) st

def step (st : Standing) : Action → Standing
  | .round now nodes challenge => p.probeRound st now nodes challenge
  | .look now relayID => (st.isExcommunicated now relayID).2

end Prober
end SyncSwarm.Transfer
