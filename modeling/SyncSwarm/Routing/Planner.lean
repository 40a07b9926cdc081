import SyncSwarm.Discovery.Peers
import SyncSwarm.Lib.Distinct
import Mathlib.Data.List.Sort

/-! Paths: which relays a fragment goes through on its way to the destination. -/

namespace SyncSwarm.Routing
open Lib Discovery

def errNoActivePeers : String := "routing: no active peers available"
def errInsufficientRelays : String := "routing: insufficient active relays to spread across"
def errNoDestination : String := "routing: destination missing ID or public key"
def errInvalidHopCount : String := "routing: hop count must be non-negative"

structure Peer where
  id : String
  address : String
  latency : Int := 0
  active : Bool
  pubKey : Bytes
  port : UInt16 := 0
  relayCapable : Bool := false
  deriving DecidableEq

structure Hop where
  nodeID : String
  address : String
  pubKey : Bytes
  deriving DecidableEq

def Peer.hop (r : Peer) : Hop := ⟨r.id, r.address, r.pubKey⟩

def notSlower (a b : Peer) : Bool := a.latency < b.latency || a.latency = b.latency && !decide (b.id < a.id)

def sorted (peers : List Peer) : List Peer := peers.insertionSort fun a b => notSlower a b

def activeSorted (peers : List Peer) : List Peer := sorted (peers.filter (·.active))

def fastestRoute (peers : List Peer) : Except String (List Peer) :=
  let active := activeSorted peers
  if active.length = 0 then .error errNoActivePeers else .ok active

/-- The same grouping as in the table of peers. --/
def subnetKey (net : Net) (address : String) : String := Discovery.subnetKey net address

def Peer.usable (r : Peer) : Bool := r.active && r.relayCapable && decide (0 < r.pubKey.length)

def eligible (dest : Peer) (relays : List Peer) : List Peer := relays.filter fun r => r.usable && r.id ≠ dest.id

def distinctSubnetRelays (net : Net) (destAddr : String) (relays : List Peer) : Nat :=
  countNew (fun r : Peer => subnetKey net r.address) [subnetKey net destAddr] (relays.filter Peer.usable)

def adaptiveHops (net : Net) (destAddr : String) (relays : List Peer) (minHops maxHops : Int) : Int :=
  let distinct := distinctSubnetRelays net destAddr relays
  if distinct = 0 then 0
  else
    let hops : Int := if 4 ≤ distinct then 3 else if 2 ≤ distinct then 2 else 1
    let cap := if maxHops ≤ 0 ∨ 3 < maxHops then 3 else maxHops
    let hops := if cap < hops then cap else hops
    if 0 < minHops ∧ hops < minHops then 0 else hops

/-- Up to `n` relays: the first of each subnet that is neither the destination's nor taken, then
    the others in order. --/
def selectDiverse (net : Net) (ordered : List Peer) (n : Nat) (destAddr : String) : List Peer :=
  let picked := takeNew (fun r : Peer => subnetKey net r.address) n [subnetKey net destAddr] ordered
  picked ++ takeNew Peer.id (n - picked.length) (picked.map Peer.id) ordered

def pathOf (picked : List Peer) (dest : Peer) : List Hop := picked.map Peer.hop ++ [dest.hop]

/-- The tests that both planners make first, and the relays that are left to choose from. --/
def candidates (dest : Peer) (relays : List Peer) (hopCount : Int) : Except String (List Peer) :=
  if dest.id = "" ∨ dest.pubKey.length = 0 then .error errNoDestination
  else if hopCount < 0 then .error errInvalidHopCount
  else if 0 < hopCount ∧ (eligible dest relays).length = 0 then .error errInsufficientRelays
  else .ok (eligible dest relays)

def buildPath (net : Net) (dest : Peer) (relays : List Peer) (hopCount : Int) : Except String (List Hop) := do
  let eligible ← candidates dest relays hopCount
  let n := min hopCount.toNat eligible.length
  return pathOf (selectDiverse net (sorted eligible) n dest.address) dest

/-- `math/rand`: a source is made from a seed, and a shuffle with it depends on the lengths that
    were shuffled before. --/
structure Rng where
  shuffle : UInt64 → List Nat → List Peer → List Peer
  perm : ∀ seed before peers, (shuffle seed before peers).Perm peers

structure PathOptions where
  seed : UInt64
  deprioritize : String → Bool
  exitNear : List String

/-- The fast half, the reserve half and those of last resort, each shuffled. --/
def tierOrder (net : Net) (rng : Rng) (eligible : List Peer) (opt : PathOptions) : List Peer :=
  let deprio := eligible.filter fun r => opt.deprioritize (net.host r.address)
  let main := sorted (eligible.filter fun r => !opt.deprioritize (net.host r.address))
  let fastN := (main.length + 1) / 2
  let fast := main.take fastN
  let reserve := main.drop fastN
  rng.shuffle opt.seed [] fast ++ rng.shuffle opt.seed [fast.length] reserve ++
    rng.shuffle opt.seed [fast.length, reserve.length] deprio

/-- The last relay is one near the destination, if one was picked or another one can take its place. --/
def biasExit (picked ordered : List Peer) (exitNear : List String) : List Peer :=
  match picked.getLast? with
  | none => picked
  | some last =>
    if exitNear.length = 0 ∨ last.id ∈ exitNear then picked
    else
      match picked.find? (·.id ∈ exitNear), ordered.find? fun r => r.id ∈ exitNear ∧ r.id ∉ picked.map Peer.id with
      | some near, _ => (picked.set (picked.findIdx (·.id ∈ exitNear)) last).set (picked.length - 1) near
      | none, some near => picked.set (picked.length - 1) near
      | none, none => picked

def buildPathTiered (net : Net) (rng : Rng) (dest : Peer) (relays : List Peer) (hopCount : Int) (opt : PathOptions) :
    Except String (List Hop) := do
  let eligible ← candidates dest relays hopCount
  let n := min hopCount.toNat eligible.length
  let ordered := tierOrder net rng eligible opt
  return pathOf (biasExit (selectDiverse net ordered n dest.address) ordered opt.exitNear) dest

end SyncSwarm.Routing
