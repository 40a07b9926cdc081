import SyncSwarm.Protocol.Signed

/-! Onions: a payload in layers, each sealed to the key of one hop, which learns where to send what it finds inside. -/

namespace SyncSwarm.Encryption
open Lib Protocol

/-- `SealHybrid` and `OpenHybrid`. A seal draws an ephemeral key and a nonce; `draw` numbers the calls. --/
structure Hybrid where
  publicKey : Bytes → Bytes
  /-- The public key, the plaintext and the associated data. -/
  sealHybrid : Nat → Bytes → Bytes → Bytes → Except String Bytes
  /-- The private key, the ciphertext and the associated data. -/
  openHybrid : Bytes → Bytes → Bytes → Except String Bytes

structure OnionHop where
  nodeID : String
  addr : String
  pubKey : Option Bytes
  deriving DecidableEq

structure OnionLayer where
  isFinal : Bool
  nextAddr : String := ""
  nextNode : String := ""
  inner : Bytes
  deriving DecidableEq

namespace OnionLayer

def last (finalPayload : Bytes) : OnionLayer := { isFinal := true, inner := finalPayload }

def toward (next : OnionHop) (inner : Bytes) : OnionLayer :=
  { isFinal := false, nextAddr := next.addr, nextNode := next.nodeID, inner }

def marshalBinary (l : OnionLayer) : Bytes :=
  boolByte l.isFinal :: (lenBytes (strBytes l.nextAddr) ++ lenBytes (strBytes l.nextNode) ++ lenBytes l.inner)

def truncated : String := "encryption: truncated onion layer"

def takeField (rest : Bytes) : Except String (Bytes × Bytes) :=
  if rest.length < 4 then .error truncated
  else
    let n := (u32 rest).toNat
    let rest := rest.drop 4
    if rest.length < n then .error truncated else .ok (rest.take n, rest.drop n)

def unmarshal (data : Bytes) : Except String OnionLayer :=
  match data with
  | [] => .error truncated
  | first :: rest => do
    let (nextAddr, rest) ← takeField rest
    let (nextNode, rest) ← takeField rest
    let (inner, _) ← takeField rest
    return { isFinal := first = 1, nextAddr := goString nextAddr, nextNode := goString nextNode, inner }

end OnionLayer

namespace Hybrid

/-- The layers from the destination outward. `draw` seals came before. --/
def wrap (H : Hybrid) (draw : Nat) (finalPayload : Bytes) : List OnionHop → Except String Bytes
  | [] => .error "encryption: onion path must have at least one hop"
  | [hop] => H.sealHybrid draw (hop.pubKey.getD []) (OnionLayer.last finalPayload).marshalBinary []
  | hop :: next :: rest => do
    let blob ← H.wrap draw finalPayload (next :: rest)
    H.sealHybrid (draw + (next :: rest).length) (hop.pubKey.getD []) (OnionLayer.toward next blob).marshalBinary []

def buildOnion (H : Hybrid) (draw : Nat) (hops : List OnionHop) (finalPayload : Bytes) : Except String Bytes :=
  if hops.length = 0 then .error "encryption: onion path must have at least one hop"
  else if hops.any (·.pubKey.isNone) then .error "encryption: onion hop has nil public key"
  else H.wrap draw finalPayload hops

def peelOnion (H : Hybrid) (myPriv blob : Bytes) : Except String OnionLayer := do
  let layerBytes ← H.openHybrid myPriv blob []
  OnionLayer.unmarshal layerBytes

end Hybrid
end SyncSwarm.Encryption
