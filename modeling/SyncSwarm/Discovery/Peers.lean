import SyncSwarm.Protocol.Payloads
import SyncSwarm.Lib.Map
import SyncSwarm.Lib.Lists

/-! The table of peers. A peer's record is an object: whoever took it out of the table can still change it after the
    table has dropped it. -/

namespace SyncSwarm.Discovery
open Lib Protocol

def maxPeers : Nat := 512
def maxPeersPerSubnet : Nat := 8

structure Node where
  id : String
  address : String
  lastSeen : Int
  latency : Int := 0
  active : Bool
  pubKey : Bytes
  signKey : Bytes
  port : UInt16
  capabilities : List String
  relayIDs : List String
  mlkemPub : Bytes
  deriving DecidableEq

/-- What `net.ParseIP` makes of a host: the bytes of an IPv4 address, and the text of the address under the mask of
    48 bits. --/
structure IP where
  v4 : Option (UInt8 × UInt8 × UInt8)
  mask48 : String

structure Net where
  /-- The host of `net.SplitHostPort`. -/
  splitHost : String → Option String
  parseIP : String → Option IP
  /-- `net.ResolveUDPAddr`, printed. -/
  resolve : String → Option String

def Net.host (net : Net) (addr : String) : String := (net.splitHost addr).getD addr

def subnetKey (net : Net) (address : String) : String :=
  let host := net.host address
  match net.parseIP host with
  | none => host
  | some ip =>
    match ip.v4 with
    | some (a, b, c) => "v4:" ++ toString a.toNat ++ "." ++ toString b.toNat ++ "." ++ toString c.toNat
    | none => "v6:" ++ ip.mask48

structure PeerConfig where
  selfID : String
  bootstrapPeers : List String
  net : Net
  iter : GoMap.Iteration String Nat

def PeerConfig.isBootstrapAddr (cfg : PeerConfig) (addr : String) : Bool :=
  cfg.bootstrapPeers.any fun b => cfg.net.host addr = cfg.net.host b

structure Peers where
  objects : List Node
  nodes : GoMap String Nat
  joins : Nat
  evictions : Nat
  /-- The addresses that were stored as those of peers which had proved themselves alive. -/
  contacts : List (String × String)

/-- What a message says about a node: the arguments of `upsertNode`. --/
structure Sighting where
  nodeID : String
  addr : String
  pubKey : Bytes
  signKey : Bytes
  port : UInt16
  capabilities : List String
  relayIDs : List String
  mlkemPub : Bytes
  deriving DecidableEq

def orOld {α : Type} (new old : List α) : List α := if 0 < new.length then new else old

def Sighting.node (s : Sighting) (now : Int) (verified : Bool) : Node :=
  { id := s.nodeID, address := s.addr, lastSeen := now, active := verified, pubKey := s.pubKey, signKey := s.signKey,
    port := s.port, capabilities := s.capabilities, relayIDs := s.relayIDs, mlkemPub := s.mlkemPub }

/-- What becomes of a record that is there. An address of a node that is not verified only fills a blank. --/
def Sighting.refresh (s : Sighting) (now : Int) (verified : Bool) (node : Node) : Node :=
  let node :=
    if verified then { node with lastSeen := now, active := true, address := s.addr }
    else if node.address = "" ∧ s.addr ≠ "" then { node with address := s.addr } else node
  { node with
    pubKey := orOld s.pubKey node.pubKey
    signKey := orOld s.signKey node.signKey
    port := if s.port ≠ 0 then s.port else node.port
    capabilities := orOld s.capabilities node.capabilities
    mlkemPub := orOld s.mlkemPub node.mlkemPub
    relayIDs := orOld s.relayIDs node.relayIDs }

def attestedOnly (selfAttested : Bool) (v : List String) : List String := if selfAttested then v else []

def zeroTime : Int := -62135596800000000000

def gossipNode (pi : PeerInfo) (now : Int) (selfAttested : Bool) : Node :=
  { id := pi.nodeID, address := pi.address, lastSeen := if pi.lastSeen = zeroTime then now else pi.lastSeen
    active := false, pubKey := pi.pubKey, signKey := pi.signKey, port := pi.port
    capabilities := attestedOnly selfAttested pi.capabilities
    relayIDs := attestedOnly selfAttested pi.relayIDs
    mlkemPub := pi.mlkemPub }

def gossipRefresh (pi : PeerInfo) (selfAttested : Bool) (node : Node) : Node :=
  { node with
    address := if pi.address ≠ "" then pi.address else node.address
    pubKey := orOld pi.pubKey node.pubKey
    signKey := orOld pi.signKey node.signKey
    port := if pi.port ≠ 0 then pi.port else node.port
    capabilities := orOld (attestedOnly selfAttested pi.capabilities) node.capabilities
    mlkemPub := orOld pi.mlkemPub node.mlkemPub
    relayIDs := orOld (attestedOnly selfAttested pi.relayIDs) node.relayIDs }

namespace Peers

def new : Peers := ⟨[], ∅, 0, 0, []⟩

def node? (p : Peers) (id : String) : Option Node := (p.nodes.get? id).bind fun ref => p.objects[ref]?

def setObject (p : Peers) (ref : Nat) (n : Node) : Peers := { p with objects := p.objects.set ref n }

def add (p : Peers) (n : Node) : Peers :=
  { p with objects := p.objects ++ [n], nodes := p.nodes.set n.id p.objects.length, joins := p.joins + 1 }

def contact (p : Peers) (verified : Bool) (s : Sighting) : Peers :=
  if verified then { p with contacts := (s.nodeID, s.addr) :: p.contacts } else p

def evict (p : Peers) (id : String) : Peers := { p with nodes := p.nodes.delete id, evictions := p.evictions + 1 }

def listed (cfg : PeerConfig) (p : Peers) : List Node := (cfg.iter.order p.nodes).filterMap fun e => p.objects[e.2]?

def stalest (l : List Node) : Option Node := firstMin (fun n old => n.lastSeen < old.lastSeen) l

def admitLocked (cfg : PeerConfig) (p : Peers) (addr : String) : Option Peers :=
  if cfg.isBootstrapAddr addr then some p
  else
    let others := (p.listed cfg).filter fun n => !cfg.isBootstrapAddr n.address
    let neighbours := others.filter fun n => subnetKey cfg.net n.address = subnetKey cfg.net addr
    let room? :=
      if maxPeersPerSubnet ≤ neighbours.length then (stalest neighbours).map fun n => p.evict n.id else some p
    room?.bind fun p => if maxPeers ≤ p.nodes.len then (stalest others).map fun n => p.evict n.id else some p

/-- `verified` says that the node has just proved to be alive. --/
def upsertNode (cfg : PeerConfig) (p : Peers) (now : Int) (s : Sighting) (verified : Bool) : Peers :=
  if s.nodeID = cfg.selfID then p
  else
    match p.nodes.get? s.nodeID with
    | some ref =>
      match p.objects[ref]? with
      | some node => (p.setObject ref (s.refresh now verified node)).contact verified s
      | none => p
    | none =>
      match p.admitLocked cfg s.addr with
      | none => p
      | some p => (p.add (s.node now verified)).contact verified s

def updateNode (cfg : PeerConfig) (p : Peers) (now : Int) (s : Sighting) : Peers := p.upsertNode cfg now s true

def learnCandidate (cfg : PeerConfig) (p : Peers) (now : Int) (s : Sighting) : Peers := p.upsertNode cfg now s false

def mergePeer (S : Signatures) (cfg : PeerConfig) (p : Peers) (now : Int) (pi : PeerInfo) (selfAttested : Bool) :
    Peers :=
  if pi.nodeID = "" ∨ pi.nodeID = cfg.selfID then p
  else if pi.nodeID ≠ deriveNodeID S pi.signKey then p
  else
    match p.nodes.get? pi.nodeID with
    | some ref =>
      match p.objects[ref]? with
      | some node => if pi.lastSeen < node.lastSeen then p else p.setObject ref (gossipRefresh pi selfAttested node)
      | none => p
    | none =>
      match p.admitLocked cfg pi.address with
      | none => p
      | some p => p.add (gossipNode pi now selfAttested)

def learnContacts (S : Signatures) (cfg : PeerConfig) (now : Int) (p : Peers) (contacts : List DHTContact) : Peers :=
  contacts.foldl (fun p c =>
    if c.nodeID = "" ∨ c.nodeID = cfg.selfID ∨ c.signKey.length = 0 then p
    else if deriveNodeID S c.signKey ≠ c.nodeID then p
    else p.learnCandidate cfg now ⟨c.nodeID, c.address, c.pubKey, c.signKey, c.port, [], [], c.mlkemPub⟩) p

end Peers
end SyncSwarm.Discovery
