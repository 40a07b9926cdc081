import SyncSwarm.Discovery.Node
import Mathlib.Logic.Function.Basic

/-! Nodes that hear one another. What a node hands to its interfaces stays under way: it may arrive late, out of order,
    more than once or never. -/

set_option linter.dupNamespace false

namespace SyncSwarm.Discovery
open Lib Protocol

def Emit.pkt : Emit → SignedPacket
  | .flood pkt => pkt
  | .send _ _ pkt => pkt

structure Swarm (ι : Type) where
  env : Env
  cfg : ι → Config
  capabilities : ι → List String
  start : ι → Int
  owner : String → Option ι
  ids : Function.Injective fun i => (cfg i).selfID
  /-- Each node has an Ed25519 key, after which it is named. -/
  keyed : ∀ i, (cfg i).signPriv.length = 64
  bound : ∀ i, deriveNodeID env.sigs (env.sigs.publicKey (cfg i).signPriv) = (cfg i).selfID
  /-- To resolve an address does not change whom it names. -/
  resolves : ∀ addr remoteAddr, env.net.resolve addr = some remoteAddr → owner remoteAddr = owner addr
  named : owner "" = none
  /-- JSON keeps the numbers of an announce, and its destination if that is a name. -/
  keeps : ∀ ap ap', deriveNodeID env.sigs ap.signKey = ap.destHash →
    env.json.announce.unmarshal (env.json.announce.marshal ap) = some ap' →
    ap'.destHash = ap.destHash ∧ ap'.timestamp = ap.timestamp ∧ ap'.hopCount = ap.hopCount

structure Network (ι : Type) where
  nodes : ι → Discovery
  /-- All frames that were sent, with their senders. -/
  frames : List (ι × Emit)

namespace Network
variable {ι : Type} [DecidableEq ι]

inductive Action (ι : Type) where
  /-- A node receives a frame; it sees it come from this address of the sender. -/
  | deliver (frame : Nat) (node : ι) (addr : String) (srcIface : Interface) (nonce : UInt64)
  | act (node : ι) (a : Discovery.Action)

def new (net : Swarm ι) : Network ι := ⟨fun i => .new (net.capabilities i) (net.start i), []⟩

/-- Whether the frame can arrive at the node: it was flooded, or was sent to an address of the node. --/
def reaches (net : Swarm ι) (i : ι) : Emit → Bool
  | .flood _ => true
  | .send _ addr _ => net.owner addr = some i

def perform (net : Swarm ι) (w : Network ι) (i : ι) (a : Discovery.Action) : Option (Network ι) :=
  ((w.nodes i).step net.env (net.cfg i) a).map fun (u, emits) =>
    ⟨Function.update w.nodes i u, w.frames ++ emits.map fun m => (i, m)⟩

def step (net : Swarm ι) (w : Network ι) : Action ι → Option (Network ι)
  | .deliver f i addr srcIface nonce => w.frames[f]?.bind fun m =>
      if net.owner addr = some m.1 ∧ reaches net i m.2 = true then w.perform net i
        (.frame addr srcIface m.2.pkt nonce) else none
  | .act _ (.frame ..) => none
  | .act i a => w.perform net i a

end Network
end SyncSwarm.Discovery
