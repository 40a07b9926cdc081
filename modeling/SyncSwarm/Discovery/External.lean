import SyncSwarm.Discovery.Node

/-! The address at which the node is seen from outside: what latency replies report, and which report wins. -/

set_option linter.dupNamespace false

namespace SyncSwarm.Discovery
open Lib Protocol

/-- A host at which a peer says it has seen this node, in its reply to the check with the nonce. --/
structure Report where
  peer : String
  nonce : UInt64
  host : String
  deriving DecidableEq

namespace Discovery

/-- What a packet reports that has passed the test of its signature. --/
def reported (env : Env) (pkt : SignedPacket) : Option Report :=
  if pkt.type = .latencyReply then
    (env.json.discovery.unmarshal pkt.payload).bind fun payload =>
      if payload.observedAddr = "" then none
      else ((env.net.splitHost payload.observedAddr).filter (· ≠ "")).map fun host =>
        ⟨pkt.signerID env.sigs, payload.nonce, host⟩
  else none

def reportOf (env : Env) : Action → Option Report
  | .frame addr _ pkt _ => if (env.net.resolve addr).isSome ∧ pkt.verify env.sigs then reported env pkt else none
  | _ => none

def Asked (w : Discovery) (r : Report) : Prop := (w.pending.get? r.nonce).any (·.nodeID = r.peer)

instance (w : Discovery) (r : Report) : Decidable (w.Asked r) := inferInstanceAs (Decidable (_ = true))

def externalHost (iter : GoMap.Iteration String Nat) (w : Discovery) : String :=
  ((iter.order w.observedCounts).foldl (fun best e => if best.2 < e.2 then e else best) ("", 0)).1

end Discovery
end SyncSwarm.Discovery
