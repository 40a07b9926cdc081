import SyncSwarm.Discovery.Paths
import SyncSwarm.Discovery.Peers
import SyncSwarm.Lib.System

/-! A node's discovery service. A frame is handled in one step: the loop is the only writer of the path table and of the
    sets of seen keys. -/

set_option linter.dupNamespace false

namespace SyncSwarm.Discovery
open Lib Protocol

def maxGossipAccept : Nat := 32
def maxGossipPeers : Nat := 8
def maxVerifyPerRound : Nat := 8
def announceFanout : Nat := 12
def requestHopMax : Nat := 128
def defaultRoutedHopLimit : UInt8 := 16

def maxLatency : Int := 2000000000

inductive Kind where
  | udp
  | tcpServer
  | tcpClient
  | lora
  | serial
  deriving DecidableEq

structure Interface where
  name : String
  kind : Kind
  mtu : Nat
  deriving DecidableEq

structure Env where
  sigs : Signatures
  json : Json
  net : Net
  timeText : Int → Bytes
  iter : GoMap.Iteration String Nat
  pathIter : GoMap.Iteration String PathEntry

structure Config where
  selfID : String
  signPriv : Bytes
  signPub : Bytes
  pubKey : Bytes
  mlkemPub : Bytes
  port : UInt16
  bootstrapPeers : List String
  iface : Option Interface

/-- Which latency check it is: of `checkLatencies`, with the object of the peer, or of `FindNode`, with a copy. --/
inductive ProbeKind where
  | check (ref : Nat) (promote : Bool)
  | find (address : String)
  deriving DecidableEq

inductive ProbePhase where
  | queued
  | waiting (nonce : UInt64) (start : Int)
  | measured (latency : Int)
  | done
  deriving DecidableEq

/-- A call of `measureLatency` with what its caller does about the result. --/
structure Probe where
  kind : ProbeKind
  nodeID : String
  phase : ProbePhase
  /-- The number of the check, once it is sent, and how many packets had been heard by then. -/
  sent : Option (UInt64 × Nat)
  reply : Option Int
  deriving DecidableEq

structure PendingLatency where
  nodeID : String
  probe : Nat
  deriving DecidableEq

structure Discovery where
  peers : Peers
  paths : PathTable
  seenAnn : DedupSet
  routedSeen : DedupSet
  nodeIface : GoMap String Interface
  addrIface : GoMap String Interface
  nonceCounter : UInt64
  pending : GoMap UInt64 PendingLatency
  probes : List Probe
  capabilities : List String
  relayIDs : List String
  observedCounts : GoMap String Nat
  now : Int
  stopped : Bool
  /-- The signed packets that were handled, whether they came straight or by routing. -/
  heard : List SignedPacket
  delivered : List (Bytes × String)

inductive Emit where
  | flood (pkt : SignedPacket)
  | send (iface : Interface) (addr : String) (pkt : SignedPacket)

def Config.peerConfig (env : Env) (cfg : Config) : PeerConfig := ⟨cfg.selfID, cfg.bootstrapPeers, env.net, env.iter⟩

namespace Discovery

def new (capabilities : List String) (now : Int) : Discovery :=
  { peers := .new, paths := .new, seenAnn := ∅, routedSeen := ∅, nodeIface := ∅, addrIface := ∅, nonceCounter := 0,
    pending := ∅, probes := [], capabilities, relayIDs := [], observedCounts := ∅, now, stopped := false, heard :=
      [], delivered := [] }

def isTransport (w : Discovery) : Bool := w.capabilities.any (· = "relay")

/-! ### Sending -/

def newPacket (env : Env) (cfg : Config) (w : Discovery) (type : PacketType) (payload : Bytes)
    (destGroup destNode : String) :
    SignedPacket :=
  { SignedPacket.new env.sigs env.timeText type payload destGroup destNode w.now with sourceNode := cfg.selfID }

def signedPacket (env : Env) (cfg : Config) (w : Discovery) (type : PacketType) (payload : Bytes) (destNode : String) :
    SignedPacket :=
  (w.newPacket env cfg type payload "ANY" destNode).sign env.sigs cfg.signPriv

def ifaceFor (cfg : Config) (w : Discovery) (nodeID : String) : Option Interface :=
  (w.nodeIface.get? nodeID).or cfg.iface

def addrIfaceFor (cfg : Config) (w : Discovery) (addr : String) : Option Interface :=
  (w.addrIface.get? addr).or cfg.iface

def sendTo (cfg : Config) (w : Discovery) (nodeID addr : String) (pkt : SignedPacket) : List Emit :=
  ((w.ifaceFor cfg nodeID).map fun i => .send i addr pkt).toList

def floodFrame (pkt : SignedPacket) : List Emit := [.flood pkt]

def floodFrameDirect (env : Env) (cfg : Config) (w : Discovery) (pkt : SignedPacket) : List Emit :=
  let targets := ((w.peers.listed (cfg.peerConfig env)).filter fun n => n.active && n.address ≠ "").take announceFanout
  floodFrame pkt ++ targets.flatMap fun t => w.sendTo cfg t.id t.address pkt

def sendAnnounce (env : Env) (cfg : Config) (w : Discovery) (ap : AnnouncePayload) (direct : Bool) : List Emit :=
  if cfg.iface.isNone then []
  else
    let pkt := w.signedPacket env cfg .announce (env.json.announce.marshal ap) ""
    if direct then w.floodFrameDirect env cfg pkt else floodFrame pkt

def buildSelfAnnounce (env : Env) (cfg : Config) (w : Discovery) (nonce : UInt64) : Option AnnouncePayload :=
  if cfg.signPriv.length = 0 ∨ cfg.selfID = "" then none
  else some (AnnouncePayload.sign env.sigs cfg.signPriv
    { destHash := cfg.selfID, pubKey := cfg.pubKey, mlkemPub := cfg.mlkemPub, port := cfg.port,
      capabilities := w.capabilities, relayIDs := w.relayIDs, timestamp := w.now, nonce, hopCount := 0 })

def announceSelf (env : Env) (cfg : Config) (w : Discovery) (nonce : UInt64) : List Emit :=
  if cfg.iface.isNone then []
  else match w.buildSelfAnnounce env cfg nonce with
    | some ap => w.sendAnnounce env cfg ap true
    | none => []

def sendPathRequest (env : Env) (cfg : Config) (w : Discovery) (pr : PathRequestPayload) : List Emit :=
  if cfg.iface.isNone ∨ cfg.signPriv.length = 0 then []
  else w.floodFrameDirect env cfg (w.signedPacket env cfg .pathRequest (env.json.pathRequest.marshal pr) "")

def requestPath (env : Env) (cfg : Config) (w : Discovery) (destHash : String) (nonce : UInt64) : List Emit :=
  w.sendPathRequest env cfg ⟨destHash, nonce, 0⟩

def routeToward (cfg : Config) (w : Discovery) (destHash : String) (pkt : SignedPacket) : List Emit :=
  match w.paths.lookup destHash with
  | none => []
  | some e => if e.nextHop = "" then [] else ((w.addrIfaceFor cfg e.nextHop).map fun i => .send i e.nextHop pkt).toList

def mtuOf (i : Option Interface) : Nat := (i.map (·.mtu)).getD 0

def mtuToward (cfg : Config) (w : Discovery) (destHash : String) : Nat :=
  match w.paths.lookup destHash with
  | none => 0
  | some e => if e.nextHop = "" then 0 else mtuOf (w.addrIfaceFor cfg e.nextHop)

def mtuFor (cfg : Config) (w : Discovery) (addr : String) : Nat := mtuOf (w.addrIfaceFor cfg addr)

def linkSend (cfg : Config) (w : Discovery) (addr : String) (frame : Bytes) : Option (Interface × String × Bytes) :=
  (w.addrIfaceFor cfg addr).map fun i => (i, addr, frame)

/-- `SendRouted` and `SendRoutedDiscovery`. --/
def sendRoutedAs (env : Env) (cfg : Config) (w : Discovery) (type : PacketType) (destHash : String) (inner : Bytes)
    (hopLimit : UInt8) : List Emit :=
  let hopLimit := if hopLimit = 0 then defaultRoutedHopLimit else hopLimit
  w.routeToward cfg destHash (w.newPacket env cfg type (encodeRouted hopLimit inner) "" destHash)

def sendRouted (env : Env) (cfg : Config) (w : Discovery) (destHash : String) (inner : Bytes) (hopLimit : UInt8) :
    List Emit :=
  w.sendRoutedAs env cfg .routed destHash inner hopLimit

def sendRoutedDiscovery (env : Env) (cfg : Config) (w : Discovery) (destHash : String) (signed : Bytes)
    (hopLimit : UInt8) :
    List Emit :=
  w.sendRoutedAs env cfg .routedDiscovery destHash signed hopLimit

def discoveryPacket (env : Env) (cfg : Config) (w : Discovery) : SignedPacket :=
  w.signedPacket env cfg .discovery (env.json.discovery.marshal
    { nodeID := cfg.selfID, version := "1.0.0", pubKey := cfg.pubKey, signKey := cfg.signPub, port := cfg.port,
      capabilities := w.capabilities, relayIDs := w.relayIDs, mlkemPub := cfg.mlkemPub }) ""

def buildPeerExchangePayload (env : Env) (cfg : Config) (w : Discovery) : PeerExchangePayload :=
  { peers :=
      { nodeID := cfg.selfID, pubKey := cfg.pubKey, signKey := cfg.signPub, port := cfg.port,
        capabilities := w.capabilities, relayIDs := w.relayIDs, mlkemPub := cfg.mlkemPub, lastSeen := w.now } ::
      ((w.peers.listed (cfg.peerConfig env)).filter (·.active)).map fun n =>
        { nodeID := n.id, address := n.address, pubKey := n.pubKey, signKey := n.signKey, port := n.port,
          mlkemPub := n.mlkemPub, lastSeen := n.lastSeen } }

def gossipPeers (env : Env) (cfg : Config) (w : Discovery) : List Emit :=
  let pkt := w.signedPacket env cfg .peerExchange
    (env.json.peerExchange.marshal (w.buildPeerExchangePayload env cfg)) ""
  let targets := ((w.peers.listed (cfg.peerConfig env)).filter fun n => n.active && n.address ≠ "").take maxGossipPeers
  targets.flatMap fun t => (env.net.resolve t.address).toList.flatMap fun addr => w.sendTo cfg t.id addr pkt

/-! ### Receiving -/

def rememberIface (w : Discovery) (nodeID : String) (i : Interface) : Discovery :=
  if nodeID = "" then w else { w with nodeIface := w.nodeIface.set nodeID i }

def rememberAddrIface (w : Discovery) (addr : String) (i : Interface) : Discovery :=
  if addr = "" then w else { w with addrIface := w.addrIface.set addr i }

def updateNode (env : Env) (cfg : Config) (w : Discovery) (s : Sighting) : Discovery :=
  { w with peers := w.peers.updateNode (cfg.peerConfig env) w.now s }

def learnCandidate (env : Env) (cfg : Config) (w : Discovery) (s : Sighting) : Discovery :=
  { w with peers := w.peers.learnCandidate (cfg.peerConfig env) w.now s }

def ifaceName (i : Option Interface) : String := (i.map (·.name)).getD ""

def announced (ap : AnnouncePayload) (addr : String) : Sighting :=
  ⟨ap.destHash, addr, ap.pubKey, ap.signKey, ap.port, ap.capabilities, ap.relayIDs, ap.mlkemPub⟩

/-- The part of `handleAnnounce` behind the tests, with what it hands to `forwardAnnounce`, whose random
    wait is left to the way. --/
def acceptAnnounce (env : Env) (cfg : Config) (w : Discovery) (remoteAddr : String) (ap : AnnouncePayload) :
    Discovery × List Emit :=
  let w :=
    if ap.hopCount = 0 then w.updateNode env cfg (announced ap remoteAddr) else w.learnCandidate env cfg
      (announced ap remoteAddr)
  let (paths, stored) := w.paths.update env.pathIter ap.destHash
    { iface := ifaceName cfg.iface, nextHop := remoteAddr, hops := ap.hopCount, lastSeen := w.now,
      originTS := ap.timestamp, ann := some ap } .announced
  let w := { w with paths }
  (w, if stored && w.isTransport && ap.hopCount.toNat + 1 ≤ announceHopMax then
        w.sendAnnounce env cfg { ap with hopCount := ap.hopCount + 1 } false
      else [])

def handleAnnounce (env : Env) (cfg : Config) (w : Discovery) (remoteAddr : String) (srcIface : Interface)
    (pkt : SignedPacket) :
    Discovery × List Emit :=
  match env.json.announce.unmarshal pkt.payload with
  | none => (w, [])
  | some ap =>
    if ap.destHash = cfg.selfID ∨ ap.verifyBound env.sigs = false then (w, [])
    else
      let w := w.rememberIface ap.destHash srcIface
      let (seen, seenAnn) := w.seenAnn.observe w.now (ap.destHash ++ ":" ++ u64hex ap.nonce)
      let w := { w with seenAnn }
      if seen then (w, []) else w.acceptAnnounce env cfg remoteAddr ap

/-- The part of `handlePathRequest` behind the test of the flood; `nonce` is drawn for an own announce. --/
def answerPathRequest (env : Env) (cfg : Config) (w : Discovery) (pr : PathRequestPayload) (nonce : UInt64) :
    List Emit :=
  if pr.destHash = cfg.selfID then
    match w.buildSelfAnnounce env cfg nonce with
    | some ap => w.sendAnnounce env cfg ap true
    | none => []
  else
    match (w.paths.lookup pr.destHash).bind fun e => e.ann.map fun ann => { ann with hopCount := e.hops + 1 } with
    | some resp => w.sendAnnounce env cfg resp true
    | none =>
      if w.isTransport && pr.hopCount.toNat + 1 ≤ requestHopMax then
        w.sendPathRequest env cfg { pr with hopCount := pr.hopCount + 1 }
      else []

def handlePathRequest (env : Env) (cfg : Config) (w : Discovery) (pkt : SignedPacket) (nonce : UInt64) :
    Discovery × List Emit :=
  match env.json.pathRequest.unmarshal pkt.payload with
  | none => (w, [])
  | some pr =>
    if pr.destHash = "" then (w, [])
    else
      let (seen, seenAnn) := w.seenAnn.observe w.now ("REQ:" ++ pr.destHash ++ ":" ++ u64hex pr.nonce)
      let w := { w with seenAnn }
      if seen then (w, []) else (w, w.answerPathRequest env cfg pr nonce)

/-- A routed packet that is not for this node goes one hop further, if this is a transport and the limit allows it. --/
def forwardRouted (cfg : Config) (w : Discovery) (pkt : SignedPacket) : List Emit :=
  if w.isTransport = false then []
  else if routedHopLimit pkt.payload ≤ 1 then []
  else w.routeToward cfg pkt.destNode
    { pkt with payload := encodeRouted (routedHopLimit pkt.payload - 1) (routedInner pkt.payload) }

def handleRouted (cfg : Config) (w : Discovery) (pkt : SignedPacket) : Discovery × List Emit :=
  let (seen, routedSeen) := w.routedSeen.observe w.now (hexString pkt.id.val)
  let w := { w with routedSeen }
  if seen then (w, [])
  else if pkt.destNode = cfg.selfID then
    ({ w with delivered := w.delivered ++ [(routedInner pkt.payload, pkt.sourceNode)] }, [])
  else (w, w.forwardRouted cfg pkt)

/-- The reply to a latency check goes to whoever waits for it, if the node that was asked has signed it. --/
def resolveLatency (w : Discovery) (nonce : UInt64) (signer : String) : Discovery :=
  match w.pending.get? nonce with
  | none => w
  | some p =>
    if p.nodeID = signer then
      { w with probes := w.probes.modify p.probe fun x => { x with reply := x.reply.or (some w.now) } }
    else w

def described (payload : DiscoveryPayload) (addr : String) (signerKey : Bytes) : Sighting :=
  ⟨payload.nodeID, addr, payload.pubKey, signerKey, payload.port, payload.capabilities, payload.relayIDs,
    payload.mlkemPub⟩

def latencyReply (env : Env) (cfg : Config) (w : Discovery) (nonce : UInt64) (observedAddr destNode : String) :
    SignedPacket :=
  w.signedPacket env cfg .latencyReply
    (env.json.discovery.marshal { nodeID := cfg.selfID, version := "1.0.0", nonce, observedAddr }) destNode

def sendRoutedLatencyReply (env : Env) (cfg : Config) (w : Discovery) (nodeID : String) (nonce : UInt64) : List Emit :=
  w.sendRoutedDiscovery env cfg nodeID (marshalBinary (w.latencyReply env cfg nonce "" nodeID)) 0

def reversePath (from' : String) (srcIface : Interface) (ip : SignedPacket) (now : Int) : PathEntry :=
  { iface := srcIface.name, nextHop := from', hops := 1, lastSeen := now, originTS := ip.timestamp, ann := none }

def learnReverse (env : Env) (w : Discovery) (ip : SignedPacket) (from' : String) (srcIface : Interface) : Discovery :=
  let signer := ip.signerID env.sigs
  let w := w.rememberIface signer srcIface
  { w with paths := (w.paths.update env.pathIter signer (reversePath from' srcIface ip w.now) .reversed).1 }

/-- The part of `deliverRoutedDiscovery` behind the tests. --/
def acceptRoutedDiscovery (env : Env) (cfg : Config) (w : Discovery) (ip : SignedPacket) (payload : DiscoveryPayload)
    (from' : String) (srcIface : Interface) : Discovery × List Emit :=
  let signer := ip.signerID env.sigs
  let w := w.learnReverse env ip from' srcIface
  match ip.type with
  | .latencyCheck => (w, w.sendRoutedLatencyReply env cfg signer payload.nonce)
  | .latencyReply => (w.resolveLatency payload.nonce signer, [])
  | .discovery => (w.updateNode env cfg (described { payload with nodeID := signer } "" ip.signerKey), [])
  | _ => (w, [])

def deliverRoutedDiscovery (env : Env) (cfg : Config) (w : Discovery) (ip : SignedPacket) (from' : String)
    (srcIface : Interface) : Discovery × List Emit :=
  if ip.verify env.sigs = false then (w, [])
  else
    let w := { w with heard := w.heard ++ [ip] }
    let signer := ip.signerID env.sigs
    if signer = "" ∨ signer = cfg.selfID ∨ ip.sourceNode ≠ signer then (w, [])
    else
      match env.json.discovery.unmarshal ip.payload with
      | none => (w, [])
      | some payload =>
        if payload.nodeID ≠ signer then (w, []) else w.acceptRoutedDiscovery env cfg ip payload from' srcIface

def handleRoutedDiscovery (env : Env) (cfg : Config) (w : Discovery) (pkt : SignedPacket) (from' : String)
    (srcIface : Interface) : Discovery × List Emit :=
  let (seen, routedSeen) := w.routedSeen.observe w.now (hexString pkt.id.val)
  let w := { w with routedSeen }
  if seen then (w, [])
  else if pkt.destNode = cfg.selfID then
    match unmarshalBinary (routedInner pkt.payload) with
    | none => (w, [])
    | some ip => w.deliverRoutedDiscovery env cfg ip from' srcIface
  else (w, w.forwardRouted cfg pkt)

def mergePeers (env : Env) (cfg : Config) (w : Discovery) (pkt : SignedPacket) (px : PeerExchangePayload) : Discovery :=
  let gossiper := pkt.signerID env.sigs
  let selfAttested := gossiper ≠ "" && pkt.sourceNode = gossiper
  { w with
    peers := (px.peers.take maxGossipAccept).foldl
      (fun p pi => p.mergePeer env.sigs (cfg.peerConfig env) w.now pi (selfAttested && pi.nodeID = gossiper)) w.peers }

/-- A FIND_NODE query teaches the node that asks. --/
def handleFindNode (env : Env) (cfg : Config) (w : Discovery) (remoteAddr : String) (pkt : SignedPacket)
    (fn : FindNodePayload) :
    Discovery :=
  let signerID := pkt.signerID env.sigs
  if fn.nodeID ≠ signerID ∨ pkt.sourceNode ≠ signerID then w
  else w.updateNode env cfg ⟨fn.nodeID, remoteAddr, fn.pubKey, pkt.signerKey, fn.port, [], [], []⟩

def recordObserved (env : Env) (w : Discovery) (addr : String) : Discovery :=
  match env.net.splitHost addr with
  | none => w
  | some host =>
    if host = "" then w else
      { w with observedCounts := w.observedCounts.set host ((w.observedCounts.get? host).getD 0 + 1) }

def handleDiscovery (env : Env) (cfg : Config) (w : Discovery) (remoteAddr : String) (pkt : SignedPacket)
    (payload : DiscoveryPayload) : Discovery × List Emit :=
  let signerID := pkt.signerID env.sigs
  let bound := payload.nodeID = signerID ∧ pkt.sourceNode = signerID
  match pkt.type with
  | .discovery => if bound then (w.updateNode env cfg (described payload remoteAddr pkt.signerKey), []) else (w, [])
  | .latencyCheck =>
    if bound then
      let w := w.updateNode env cfg (described payload remoteAddr pkt.signerKey)
      (w, w.sendTo cfg payload.nodeID remoteAddr (w.latencyReply env cfg payload.nonce remoteAddr ""))
    else (w, [])
  | .latencyReply =>
    let w := if payload.observedAddr ≠ "" then w.recordObserved env payload.observedAddr else w
    (w.resolveLatency payload.nonce signerID, [])
  | _ => (w, [])

/-- The loop behind the test of the signature. --/
def handleSigned (env : Env) (cfg : Config) (w : Discovery) (remoteAddr : String) (srcIface : Interface)
    (pkt : SignedPacket)
    (nonce : UInt64) : Discovery × List Emit :=
  match pkt.type with
  | .peerExchange =>
    match env.json.peerExchange.unmarshal pkt.payload with
    | none => (w, [])
    | some px => (w.mergePeers env cfg pkt px, [])
  | .findNode =>
    match env.json.findNode.unmarshal pkt.payload with
    | none => (w, [])
    | some fn => (w.handleFindNode env cfg remoteAddr pkt fn, [])
  | .findNodeReply =>
    match env.json.findNodeReply.unmarshal pkt.payload with
    | none => (w, [])
    | some fr => ({ w with peers := w.peers.learnContacts env.sigs (cfg.peerConfig env) w.now fr.contacts }, [])
  | .announce => w.handleAnnounce env cfg remoteAddr srcIface pkt
  | .pathRequest => w.handlePathRequest env cfg pkt nonce
  | .reachabilityCheck | .reachabilityResult => (w, [])
  | _ =>
    match env.json.discovery.unmarshal pkt.payload with
    | none => (w, [])
    | some payload => w.handleDiscovery env cfg remoteAddr pkt payload

/-- A round of `listenForPeers`: a frame from the address `addr`; `nonce` is drawn if the node announces itself. --/
def receive (env : Env) (cfg : Config) (w : Discovery) (addr : String) (srcIface : Interface) (pkt : SignedPacket)
    (nonce : UInt64) : Discovery × List Emit :=
  match env.net.resolve addr with
  | none => (w, [])
  | some remoteAddr =>
    let w := w.rememberAddrIface addr srcIface
    match pkt.type with
    | .linkRequest | .linkProof | .linkData => (w, [])
    | .routedDiscovery => w.handleRoutedDiscovery env cfg pkt remoteAddr srcIface
    | .routed => w.handleRouted cfg pkt
    | _ =>
      if pkt.verify env.sigs = false then (w, [])
      else
        let w := { w with heard := w.heard ++ [pkt] }
        (w.rememberIface (pkt.signerID env.sigs) srcIface).handleSigned env cfg remoteAddr srcIface pkt nonce

/-! ### Latency checks -/

def routedOnly (cfg : Config) (w : Discovery) (nodeID : String) : Bool :=
  (w.ifaceFor cfg nodeID).any fun i => i.kind = .tcpClient

/-- The checks of a round: all active peers, and some that are not. --/
def checkLatencies (env : Env) (w : Discovery) : Discovery :=
  let listed := (env.iter.order w.peers.nodes).filterMap fun e => w.peers.objects[e.2]?.map fun n => (e.2, n)
  let active := listed.filter fun e => e.2.active
  let unverified := (listed.filter fun e => !e.2.active).take maxVerifyPerRound
  let probe (promote : Bool) (e : Nat × Node) : Probe := ⟨.check e.1 promote, e.2.id, .queued, none, none⟩
  { w with probes := w.probes ++ active.map (probe false) ++ unverified.map (probe true) }

/-- `FindNode` behind its lookup: the peer is in the table and not active. --/
def locate (w : Discovery) (target : String) : Option Discovery :=
  (w.peers.node? target).bind fun n =>
    if n.active then none else some { w with probes := w.probes ++ [⟨.find n.address, n.id, .queued, none, none⟩] }

def Probe.address (w : Discovery) (x : Probe) : String :=
  match x.kind with
  | .check ref _ => ((w.peers.objects[ref]?).map (·.address)).getD ""
  | .find address => address

def setProbe (w : Discovery) (k : Nat) (x : Probe) : Discovery := { w with probes := w.probes.set k x }

def checkFrames (env : Env) (cfg : Config) (w : Discovery) (x : Probe) (nonce : UInt64) : List Emit :=
  let nodeAddr := Probe.address w x
  let addr := env.net.resolve nodeAddr
  let viaRoute := nodeAddr = "" || addr.isNone || w.routedOnly cfg x.nodeID
  let pkt := w.signedPacket env cfg .latencyCheck
    (env.json.discovery.marshal { nodeID := cfg.selfID, version := "1.0.0", nonce }) x.nodeID
  if viaRoute then
    w.sendRoutedDiscovery env cfg x.nodeID (marshalBinary pkt) 0 ++
      addr.toList.flatMap fun a => cfg.iface.toList.map fun i => .send i a pkt
  else addr.toList.flatMap fun a => w.sendTo cfg x.nodeID a pkt

/-- `measureLatency` up to the wait; `ok` says whether the interfaces took the frames. --/
def measure (env : Env) (cfg : Config) (w : Discovery) (k : Nat) (x : Probe) (ok : Bool) : Discovery × List Emit :=
  let nonce := w.nonceCounter + 1
  let emits := w.checkFrames env cfg x nonce
  let w := { w with nonceCounter := nonce }
  if emits.isEmpty || !ok then (w.setProbe k { x with phase := .measured (maxLatency + 1) }, emits)
  else
    ({ w.setProbe k { x with phase := .waiting nonce w.now, sent := some (nonce, w.heard.length), reply := none } with
       pending := w.pending.set nonce ⟨x.nodeID, k⟩ }, emits)

def measured (w : Discovery) (k : Nat) (x : Probe) (nonce : UInt64) (latency : Int) : Discovery :=
  { w.setProbe k { x with phase := .measured latency } with pending := w.pending.delete nonce }

/-- What the caller of `measureLatency` does under the lock. --/
def concludeProbe (w : Discovery) (x : Probe) (latency : Int) : Peers :=
  match x.kind with
  | .check ref promote =>
    match w.peers.objects[ref]? with
    | none => w.peers
    | some n =>
      if maxLatency < latency then if promote then w.peers else w.peers.setObject ref { n with active := false }
      else
        w.peers.setObject ref
          (if promote then { n with latency, active := true, lastSeen := w.now } else { n with latency })
  | .find _ =>
    if maxLatency < latency then w.peers
    else
      match w.peers.nodes.get? x.nodeID with
      | none => w.peers
      | some ref =>
        match w.peers.objects[ref]? with
        | none => w.peers
        | some n => w.peers.setObject ref { n with active := true, latency, lastSeen := w.now }

/-! ### Steps -/

def setRelay (w : Discovery) (on : Bool) : Discovery :=
  let caps := w.capabilities.filter (· ≠ "relay")
  { w with capabilities := if on then caps ++ ["relay"] else caps }

inductive Action where
  | frame (addr : String) (srcIface : Interface) (pkt : SignedPacket) (nonce : UInt64)
  | checkLatencies
  | findNode (target : String)
  | measure (probe : Nat) (ok : Bool)
  /-- The wait for the reply ends with the reply, with the timer, or with the node. -/
  | answered (probe : Nat)
  | timeout (probe : Nat)
  | canceled (probe : Nat)
  | conclude (probe : Nat)
  | announceSelf (nonce : UInt64)
  | requestPath (dest : String) (nonce : UInt64)
  | sendRouted (dest : String) (inner : Bytes) (hopLimit : UInt8)
  | broadcastDiscovery
  | gossipPeers
  | setRelay (on : Bool) (nonce : UInt64)
  | setRelayIDs (ids : List String) (nonce : UInt64)
  | tick (elapsed : Nat)
  | stop

def step (env : Env) (cfg : Config) (w : Discovery) : Action → Option (Discovery × List Emit)
  | .frame addr srcIface pkt nonce => some (w.receive env cfg addr srcIface pkt nonce)
  | .checkLatencies => some (w.checkLatencies env, [])
  | .findNode target => (w.locate target).map fun w => (w, [])
  | .measure k ok => w.probes[k]?.bind fun x => if x.phase = .queued then some (w.measure env cfg k x ok) else none
  | .answered k => w.probes[k]?.bind fun x =>
      match x.phase, x.reply with
      | .waiting nonce start, some arrival => some (w.measured k x nonce (arrival - start), [])
      | _, _ => none
  | .timeout k => w.probes[k]?.bind fun x =>
      match x.phase with
      | .waiting nonce start => if maxLatency ≤ w.now - start then some
        (w.measured k x nonce (maxLatency + 1), []) else none
      | _ => none
  | .canceled k => w.probes[k]?.bind fun x =>
      match x.phase with
      | .waiting nonce _ => if w.stopped then some (w.measured k x nonce maxLatency, []) else none
      | _ => none
  | .conclude k => w.probes[k]?.bind fun x =>
      match x.phase with
      | .measured latency =>
        some ({ w.setProbe k { x with phase := .done } with peers := w.concludeProbe x latency }, [])
      | _ => none
  | .announceSelf nonce => some (w, w.announceSelf env cfg nonce)
  | .requestPath dest nonce => some (w, w.requestPath env cfg dest nonce)
  | .sendRouted dest inner hopLimit => some (w, w.sendRouted env cfg dest inner hopLimit)
  | .broadcastDiscovery => some (w, floodFrame (w.discoveryPacket env cfg))
  | .gossipPeers => some (w, w.gossipPeers env cfg)
  | .setRelay on nonce =>
      let w := w.setRelay on
      some (w, floodFrame (w.discoveryPacket env cfg) ++ w.announceSelf env cfg nonce)
  | .setRelayIDs ids nonce =>
      let w' := { w with relayIDs := ids }
      some (w', if ids = w.relayIDs then [] else w'.announceSelf env cfg nonce)
  | .tick elapsed => some ({ w with now := w.now + elapsed }, [])
  | .stop => some ({ w with stopped := true }, [])

end Discovery
end SyncSwarm.Discovery
