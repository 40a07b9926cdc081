import SyncSwarm.Transfer.Delivery
import SyncSwarm.Routing.Planner
import SyncSwarm.Encryption.Onion
import SyncSwarm.Lib.Tries

/-! Sending. A dial, a write and a wait for an answer may each fail; what is dialed and written is recorded,
    with whether it failed. -/

namespace SyncSwarm.Transfer
open Lib Protocol Fragment Encryption
open Discovery (Node Net)
open Routing (Peer Hop Rng)

def transferPort : Nat := 64513

def maxRetries : Nat := 3

def defaultMaxRedundancy : Int := 4

/-- Thirty seconds, as they print. --/
def streamAckTimeout : String := "30s"

/-- What is written to a connection: the first packet of a direct transfer, one of its chunks, or a relay packet. --/
inductive Frame where
  | init (pkt : Packet)
  | chunk (pkt : Packet)
  | relay (blob : Bytes)
  deriving DecidableEq

inductive Emission where
  /-- `discovery.SendRouted`. -/
  | routed (destID : String) (inner : Bytes) (ok : Bool)
  | dial (addr : String) (ok : Bool)
  /-- `WritePacket` to a connection with the address. -/
  | write (addr : String) (frame : Frame) (ok : Bool)
  /-- `discovery.DialNode`. -/
  | dialLink (nodeID : String) (ok : Bool)
  | sendRelay (nodeID : String) (blob : Bytes) (ok : Bool)
  deriving DecidableEq

/-! ### The node -/

structure Platform where
  net : Net
  rng : Rng
  hybrid : Hybrid
  sigs : Signatures
  rs : ReedSolomon
  text : Int → Bytes
  /-- `ecdh.X25519().NewPublicKey`, and `ParseMLKEMPub`. -/
  newPublicKey : Bytes → Except String Bytes
  parseMLKEMPub : Bytes → Option Bytes
  /-- `NewHybridSealer` and `NewPQHybridSealer` for a recipient's public keys. -/
  sealerTo : Bytes → Sealer
  pqSealerTo : Bytes → Bytes → Sealer
  /-- `json.Marshal` of a reply block. -/
  marshalReply : String → Bytes → Bytes

structure Sender extends Platform where
  cfg : Config
  selfID : String
  nodePriv : Option Bytes
  /-- `reachableHost`, and the port for data. -/
  selfHost : String
  dataPort : Nat
  hopCount : Int
  strictAnon : Bool
  adaptiveOnion : Bool
  minOnionHops : Int
  maxOnionHops : Int
  perHopRouting : Bool
  onionOverLinks : Bool
  confirm : Bool
  redundancy : Int
  adaptiveRedundancy : Bool
  minRedundancy : Int
  maxRedundancy : Int
  subChunkSize : Int
  padCell : Int
  sealToRecipient : Bool
  postQuantum : Bool
  seedHosts : String → Bool

inductive Wait where
  | acked
  | timeout
  | canceled
  deriving DecidableEq

structure Moment where
  /-- Which dials, writes and waits for answers succeed, and which connections are in the pool. -/
  answers : Nat → Bool
  excommunicated : String → Bool
  /-- `discovery.MTUToward`. -/
  mtu : Int
  /-- The time at which a piece is packed, and the number of seals before the onion of one of its copies. -/
  now : Fragment → Int
  draw : Fragment → Nat → Nat
  replyNow : Int
  replyDraw : Nat
  wait : Wait

/-- `net.JoinHostPort`. --/
def joinHostPort (host port : String) : String :=
  if ':' ∈ host.toList then "[" ++ host ++ "]:" ++ port else host ++ ":" ++ port

def hasCapability (caps : List String) (want : String) : Bool := caps.contains want

namespace Sender
variable (s : Sender)

def peerDialAddr (node : Node) : String :=
  joinHostPort (s.net.host node.address) (toString (if node.port = 0 then transferPort else node.port.toNat))

def usePerHop : Bool := s.perHopRouting && !s.strictAnon && !s.adaptiveOnion

def wantForward : Bool := 0 < s.hopCount || s.adaptiveOnion

def failClosed : Bool := s.strictAnon || s.adaptiveOnion

def hopsFor (relays : List Peer) (destAddr : String) : Int :=
  if s.adaptiveOnion then Routing.adaptiveHops s.net destAddr relays s.minOnionHops s.maxOnionHops else s.hopCount

def pathsFor (relays : List Peer) (destAddr : String) : Int :=
  if s.adaptiveRedundancy then
    let n : Int := Routing.distinctSubnetRelays s.net destAddr relays
    let n := if 0 < s.minRedundancy ∧ n < s.minRedundancy then s.minRedundancy else n
    let max := if s.maxRedundancy ≤ 0 then defaultMaxRedundancy else s.maxRedundancy
    let n := if max < n then max else n
    if n < 1 then 1 else n
  else if s.redundancy < 1 then 1
  else s.redundancy

def relayPeer (n : Node) : Peer :=
  { id := n.id, address := s.peerDialAddr n, latency := n.latency, active := n.active, pubKey := n.pubKey,
    port := n.port, relayCapable := true }

def relayPeers (excommunicated : String → Bool) (nodes : List Node) (excludeID : String) : List Peer :=
  (nodes.filter fun n => n.id ≠ excludeID && decide (0 < n.pubKey.length) && hasCapability n.capabilities "relay" &&
    !excommunicated n.id).map s.relayPeer

/-- The sealer, and the two flags of the scheme that go with it. --/
def contentSealer (dest : Option Node) : Option Sealer × Bool × Bool :=
  match dest with
  | none => (s.cfg.sealer, false, false)
  | some dest =>
    if !s.sealToRecipient ∨ dest.pubKey.length = 0 then (s.cfg.sealer, false, false)
    else
      match s.newPublicKey dest.pubKey with
      | .error _ => (s.cfg.sealer, false, false)
      | .ok xpub =>
        if s.postQuantum ∧ 0 < dest.mlkemPub.length then
          match s.parseMLKEMPub dest.mlkemPub with
          | some mlpub => (some (s.pqSealerTo xpub mlpub), true, true)
          | none => (some (s.sealerTo xpub), true, false)
        else (some (s.sealerTo xpub), true, false)

/-! ### One packet -/

def dialTimes (addr : String) : Nat → Tries Emission Bool
  | 0 => pure false
  | n + 1 => (Tries.attempt (.dial addr)).or (dialTimes addr n)

def dialWithRetries (addr : String) : Tries Emission Bool := dialTimes addr maxRetries

/-- A connection to the address may be in the pool. --/
def sendPooled (addr : String) (frame : Frame) : Tries Emission Bool :=
  (Tries.ask.and (Tries.attempt (.write addr frame))).or
    ((dialWithRetries addr).and (Tries.attempt (.write addr frame)))

def sendRelayBlob (addr : String) (blob : Bytes) : Tries Emission Bool := sendPooled addr (.relay blob)

def sendRelayViaLink (nodeID : String) (blob : Bytes) : Tries Emission Bool :=
  if nodeID = "" then pure false
  else (Tries.attempt (.dialLink nodeID)).and (Tries.attempt (.sendRelay nodeID blob))

def sendRelayHop (nodeID addr : String) (blob : Bytes) : Tries Emission Bool :=
  if s.onionOverLinks then (sendRelayViaLink nodeID blob).or (sendRelayBlob addr blob)
  else (sendRelayBlob addr blob).or (sendRelayViaLink nodeID blob)

/-- The packet inside an onion or a routed frame. --/
def innerFragment (id : TransferID) (destID sourceNode : String) (frag : Fragment) (sc : Scheme)
    (replyBlock : Bytes) (now : Int) :
    SignedPacket :=
  padPacket s.padCell
    { SignedPacket.new s.sigs s.text .data frag.payload "" destID now with
      toPacket := packetOf id sc sourceNode replyBlock frag }

def buildInnerFragment (id : TransferID) (destID sourceNode : String) (frag : Fragment) (sc : Scheme)
    (replyBlock : Bytes) (now : Int) :
    Bytes := marshalBinary (s.innerFragment id destID sourceNode frag sc replyBlock now)

/-! ### Onion routing -/

def toOnionHops (hops : List Hop) : Except String (List OnionHop) :=
  hops.mapM fun h =>
    match s.newPublicKey h.pubKey with
    | .error e => .error ("invalid public key for hop " ++ h.nodeID ++ ": " ++ e)
    | .ok pub => .ok { nodeID := h.nodeID, addr := h.address, pubKey := some pub }

/-- The return path, or nothing when none with a relay on it can be built. --/
def buildReplyBlock (m : Moment) (id : TransferID) (relays : List Peer) (ackToken : Bytes) : Bytes :=
  match s.nodePriv with
  | none => []
  | some priv =>
    let selfAddr := joinHostPort s.selfHost (toString s.dataPort)
    let nhops := s.hopsFor relays selfAddr
    if !s.wantForward ∨ relays.length = 0 ∨ nhops < 1 then []
    else
      let self : Peer := { id := s.selfID, address := selfAddr, pubKey := s.hybrid.publicKey priv, active := true }
      let ack := { SignedPacket.new s.sigs s.text .acknowledgement ackToken "" "" m.replyNow with id }
      let built : Except String Bytes := do
        let hops ← Routing.buildPath s.net self relays nhops
        if hops.length < 2 then throw "no relay before this node"
        let onionHops ← s.toOnionHops hops
        let blob ← s.hybrid.buildOnion m.replyDraw onionHops (marshalBinary ack)
        return s.marshalReply ((hops.headD self.hop).address) blob
      built.toOption.getD []

def pickReservationRelay (relays : List Peer) (relayIDs : List String) : Option Peer := relays.find? (·.id ∈ relayIDs)

structure ForwardCtx where
  id : TransferID
  sc : Scheme
  destID : String
  destPeer : Peer
  relays : List Peer
  replyBlock : Bytes
  paths : Int
  hops : Int
  exitNear : List String

def destPeer (dest : Node) : Peer :=
  { id := dest.id, address := s.peerDialAddr dest, pubKey := dest.pubKey, active := true }

def newForwardCtx (m : Moment) (dest : Node) (nodes : List Node) (id : TransferID) (sc : Scheme) (ackToken : Bytes) :
    Except String ForwardCtx :=
  let relays := s.relayPeers m.excommunicated nodes dest.id
  let destAddr := s.peerDialAddr dest
  let hops := s.hopsFor relays destAddr
  if s.nodePriv.isNone ∨ dest.pubKey.length = 0 then .error "forwarding unavailable: missing keys"
  else if 0 < dest.relayIDs.length ∧ (pickReservationRelay relays dest.relayIDs).isNone then
    .error ("destination " ++ dest.id ++ " advertises reservation relays, none of which are usable")
  else if hops ≤ 0 then .error "forwarding unavailable: insufficient relay diversity for anonymous routing"
  else
    let paths := s.pathsFor relays destAddr
    .ok
      { id, sc, relays, hops
        destID := dest.id
        destPeer := s.destPeer dest
        replyBlock := s.buildReplyBlock m id relays ackToken
        paths := if 0 < relays.length ∧ (relays.length : Int) < paths then relays.length else paths
        exitNear := dest.relayIDs }

namespace ForwardCtx
variable (fc : ForwardCtx)

/-- The first eight bytes of the ID, the lowest first, and the place of the copy. --/
def seed (piece : Fragment) (copyIdx : Nat) : UInt64 :=
  UInt64.ofNat (beNat (fc.id.val.take 8).reverse) ^^^
    (piece.blockIndex.toUInt64 <<< 40 ||| piece.index.toUInt64 <<< 16 ||| piece.subIndex.toUInt64 <<< 4 |||
      UInt64.ofNat copyIdx)

def path (piece : Fragment) (copyIdx : Nat) : Except String (List Hop) :=
  Routing.buildPathTiered s.net s.rng fc.destPeer fc.relays fc.hops
    { seed := fc.seed piece copyIdx, deprioritize := s.seedHosts, exitNear := fc.exitNear }

def onion (m : Moment) (piece : Fragment) (inner : Bytes) (copyIdx : Nat) : Except String (Hop × Bytes) := do
  let hops ← fc.path s piece copyIdx
  let onionHops ← s.toOnionHops hops
  let blob ← s.hybrid.buildOnion (m.draw piece copyIdx) onionHops inner
  return (hops.headD fc.destPeer.hop, blob)

def sendCopies (m : Moment) (piece : Fragment) (inner : Bytes) : List Nat → Bool → Tries Emission (Except String Bool)
  | [], sent => pure (.ok sent)
  | copyIdx :: rest, sent =>
    match fc.onion s m piece inner copyIdx with
    | .error e => pure (.error e)
    | .ok (first, blob) => do
      let ok ← s.sendRelayHop first.nodeID first.address blob
      sendCopies m piece inner rest (sent || ok)

def inner (m : Moment) (piece : Fragment) : Bytes :=
  s.buildInnerFragment fc.id fc.destID "" piece fc.sc fc.replyBlock (m.now piece)

def allFailed (piece : Fragment) : String :=
  "block " ++ toString piece.blockIndex.toNat ++ " fragment " ++ toString piece.index.toNat ++ " sub-chunk " ++
    toString piece.subIndex.toNat ++ "/" ++ toString piece.subTotal.toNat ++ ": all " ++
      toString fc.paths ++ " paths failed"

def sendPiece (m : Moment) (piece : Fragment) : Tries Emission (Except String Unit) := do
  match ← fc.sendCopies s m piece (fc.inner s m piece) (List.range fc.paths.toNat) false with
  | .error e => pure (.error e)
  | .ok sent => pure (if sent then .ok () else .error (fc.allFailed piece))

def sendFragment (m : Moment) (frag : Fragment) : Tries Emission (Except String Unit) :=
  Tries.each (fc.sendPiece s m) (fragmentPieces frag s.subChunkSize)

end ForwardCtx

def sendForwarded (m : Moment) (dest : Node) (nodes : List Node) (id : TransferID) (frags : List Fragment) (sc : Scheme)
    (ackToken : Bytes) : Tries Emission (Except String Unit) :=
  match s.newForwardCtx m dest nodes id sc ackToken with
  | .error e => pure (.error e)
  | .ok fc => Tries.each (fc.sendFragment s m) frags

/-! ### Per-hop routing and direct connections -/

def sendRouted (m : Moment) (destID ackOrigin : String) (id : TransferID) (frags : List Fragment) (sc : Scheme) :
    Tries Emission (Except String Unit) :=
  let sub := routedSubChunkFor m.mtu s.subChunkSize s.padCell
  Tries.each (fun frag => Tries.each (fun piece => do
    let inner := s.buildInnerFragment id destID ackOrigin piece sc [] (m.now piece)
    let ok ← Tries.attempt (.routed destID inner)
    pure (if ok then .ok () else .error ("no path to " ++ destID ++ " for per-hop routing")))
      (fragmentPieces frag sub)) frags

def exchange (addr : String) (frame : Frame) (unsent unanswered : String) : Tries Emission (Except String Unit) := do
  let written ← Tries.attempt (.write addr frame)
  if written then
    let answered ← Tries.ask
    pure (if answered then .ok () else .error unanswered)
  else pure (.error unsent)

def sendFragmentDirect (addr : String) (id : TransferID) (sc : Scheme) (frag : Fragment) :
    Tries Emission (Except String Unit) :=
  Tries.each (fun piece => exchange addr (.chunk (packetOf id sc s.selfID [] piece))
    ("failed to send fragment " ++ toString piece.index.toNat ++ " sub-chunk " ++ toString piece.subIndex.toNat)
    "failed to receive fragment acknowledgment") (fragmentPieces frag s.subChunkSize)

def sendToNode (node : Node) (id : TransferID) (frags : List Fragment) (sc : Scheme) :
    Tries Emission (Except String Unit) := do
  let addr := s.peerDialAddr node
  let connected ← dialWithRetries addr
  if connected then
    let init := applyScheme { id, sourceNode := s.selfID, totalChunks := UInt32.ofNat frags.length } sc
    match ← exchange addr (.init init) "failed to send initial packet" "failed to receive acknowledgment" with
    | .error e => pure (.error e)
    | .ok () => Tries.each (s.sendFragmentDirect addr id sc) frags
  else pure (.error ("failed to connect to node " ++ node.id))

def streamDirect (dest : Node) (id : TransferID) (sc : Scheme) (frags : List Fragment) :
    Tries Emission (Except String Unit) := do
  let addr := s.peerDialAddr dest
  let connected ← dialWithRetries addr
  if connected then
    let init := applyScheme { id, sourceNode := s.selfID } sc
    match ← exchange addr (.init init) "failed to send streaming init" "failed to receive streaming ack" with
    | .error e => pure (.error e)
    | .ok () => Tries.each (s.sendFragmentDirect addr id sc) frags
  else pure (.error ("failed to connect to node " ++ dest.id))

end Sender

/-! ### The destination -/

/-- What discovery answers while a destination is resolved: the active nodes at first, whether the node is found and
    reachable over a circuit and the active nodes then, whether a path is resolved and the active nodes after that. --/
structure Lookup where
  active : List Node
  found : Bool
  reachable : Bool
  activeFound : List Node
  resolved : Bool
  activeResolved : List Node

def Lookup.resolveDest (l : Lookup) (destNode : String) : List Node :=
  if destNode = "" ∨ l.active.any (·.id = destNode) then l.active
  else if l.found && l.reachable then l.activeFound
  else if l.activeFound.any (·.id = destNode) then l.activeFound
  else if l.resolved then l.activeResolved
  else l.active

/-- The entry of a map that was filled from the list. --/
def byID (nodes : List Node) (id : String) : Option Node := nodes.reverse.find? (·.id = id)

structure Surroundings where
  lookup : Lookup
  /-- `discovery.NodeByID` and `discovery.CircuitReachable` for the destination. -/
  nodeByID : Option Node
  circuitReachable : Bool
  /-- Those excommunicated when the route is checked. -/
  excommunicated : String → Bool
  /-- The error with which a chunk cannot be stored. -/
  saveChunk : Nat → Option String
  ackToken : Bytes
  attempts : Nat → Moment

/-- The nodes that may be sent to. A destination that only a circuit reaches is admitted. --/
def Surroundings.candidates (env : Surroundings) (destNode : String) : List Node :=
  let nodes := env.lookup.resolveDest destNode
  match byID nodes destNode, env.nodeByID with
  | none, some n => if destNode ≠ "" ∧ env.circuitReachable then nodes ++ [n] else nodes
  | _, _ => nodes

/-! ### Sending a payload -/

inductive Sentinel where
  | destinationUnreachable
  | noAnonymousRoute
  | notConfirmed
  deriving DecidableEq

def Sentinel.text : Sentinel → String
  | destinationUnreachable => "destination not reachable"
  | noAnonymousRoute => "no anonymous route"
  | notConfirmed => "delivery not confirmed"

structure SendError where
  text : String
  wraps : Option Sentinel := none
  deriving DecidableEq

def SendError.wrapping (text : String) (sentinel : Sentinel) : SendError :=
  ⟨text ++ ": " ++ sentinel.text, some sentinel⟩

structure Outcome where
  error : Option SendError
  emitted : List Emission

structure Job where
  id : TransferID
  destNode : String
  nodes : List Node
  frags : List Fragment
  sc : Scheme
  ordered : List Peer
  ackToken : Bytes

def nodeToPeer (n : Node) : Peer :=
  { id := n.id, address := n.address, latency := n.latency, active := n.active, pubKey := n.pubKey, port := n.port,
    relayCapable := hasCapability n.capabilities "relay" }

namespace Sender
variable (s : Sender)

/-- The direct sends run side by side in the source; here one after the other. --/
def sendDirect (job : Job) : Tries Emission Unit := do
  let targets := if job.destNode ≠ "" then (byID job.nodes job.destNode).toList
    else job.ordered.filterMap fun p => byID job.nodes p.id
  let _ ← Tries.each (fun node => do
    let _ ← s.sendToNode node job.id job.frags job.sc
    pure (.ok () : Except String Unit)) targets
  pure ()

/-- The part of an attempt behind per-hop routing: onion routing, and when it fails a direct send, unless that would
    give the sender away. --/
def sendBeyondRouting (m : Moment) (job : Job) : Tries Emission Unit :=
  match byID job.nodes job.destNode with
  | some dest =>
    if job.destNode ≠ "" ∧ s.wantForward ∧ s.nodePriv.isSome ∧ 0 < dest.pubKey.length then do
      match ← s.sendForwarded m dest job.nodes job.id job.frags job.sc job.ackToken with
      | .ok () => pure ()
      | .error _ => if s.failClosed then pure () else s.sendDirect job
    else s.sendDirect job
  | none => s.sendDirect job

def sendOnce (m : Moment) (job : Job) : Tries Emission Unit :=
  if job.destNode ≠ "" ∧ s.usePerHop then do
    let ackOrigin := if s.confirm then s.selfID else ""
    match ← s.sendRouted m job.destNode ackOrigin job.id job.frags job.sc with
    | .ok () => pure ()
    | .error _ => s.sendBeyondRouting m job
  else s.sendBeyondRouting m job

def emittedOnce (m : Moment) (job : Job) : List Emission := ((s.sendOnce m job).run m.answers).done

/-- The attempts that are left, the next one and what was emitted before. --/
def confirmLoop (attempts : Nat → Moment) (job : Job) : Nat → Nat → List Emission → Outcome
  | 0, _, emitted =>
    ⟨some (.wrapping
    ("delivery to " ++ job.destNode ++ " not confirmed after " ++ toString maxAckAttempts ++ " attempts")
      .notConfirmed), emitted⟩
  | left + 1, k, emitted =>
    let emitted := emitted ++ s.emittedOnce (attempts k) job
    match (attempts k).wait with
    | .acked => ⟨none, emitted⟩
    | .canceled => ⟨some ⟨"transfer canceled", none⟩, emitted⟩
    | .timeout => confirmLoop attempts job left (k + 1) emitted

/-- The test before anything is done: an anonymous send needs a route. --/
def noRoute (env : Surroundings) (destNode : String) (nodes : List Node) : Bool :=
  s.failClosed && destNode ≠ "" && s.wantForward && s.nodePriv.isSome &&
    match byID nodes destNode with
    | none => true
    | some dest =>
      let relays := s.relayPeers env.excommunicated nodes destNode
      dest.pubKey.length = 0 || relays.length = 0 || decide (s.hopsFor relays (s.peerDialAddr dest) ≤ 0)

/-- The chunks are stored in order, up to the first that cannot be. --/
def storeChunks (env : Surroundings) (data : Bytes) : Except SendError Unit :=
  let failed (i : Nat) : Option SendError :=
    (env.saveChunk i).map fun e => ⟨"failed to store chunk " ++ toString (i + 1) ++ ": " ++ e, none⟩
  match (List.range (split data s.cfg.maxChunkSize).length).findSome? failed with
  | some e => .error e
  | none => .ok ()

/-- What is done before the first attempt. --/
def prepare (env : Surroundings) (id : TransferID) (data : Bytes) (destNode : String) (isVariable : Bool) :
    Except SendError Job := do
  if (env.lookup.resolveDest destNode).length = 0 then throw ⟨"no active nodes available for transfer", none⟩
  let nodes := env.candidates destNode
  if destNode ≠ "" ∧ (byID nodes destNode).isNone then
    throw (.wrapping
      ("destination node " ++ destNode ++ " is not reachable (not active, and no live circuit reservation)")
      .destinationUnreachable)
  if s.noRoute env destNode nodes then
    throw (.wrapping ("anonymity required but no relay route to " ++ destNode ++ " (insufficient relays/diversity)")
      .noAnonymousRoute)
  let (sealer, hybrid, pq) := s.contentSealer (byID nodes destNode)
  let (frags, sc) ← (s.cfg.buildFragments s.rs id data isVariable sealer).mapError fun e =>
    ⟨"failed to build fragments: " ++ e, none⟩
  s.storeChunks env data
  let ordered ← (Routing.fastestRoute (nodes.map nodeToPeer)).mapError fun e => ⟨"failed to plan route: " ++ e, none⟩
  let ackToken := if destNode ≠ "" ∧ s.confirm then env.ackToken else []
  return { id, destNode, nodes, frags, sc := { sc with hybridSealed := hybrid, pq }, ordered, ackToken }

def sendDataTracked (env : Surroundings) (id : TransferID) (data : Bytes) (destNode : String) (isVariable : Bool) :
    Outcome :=
  match s.prepare env id data destNode isVariable with
  | .error e => ⟨some e, []⟩
  | .ok job =>
    if destNode ≠ "" ∧ s.confirm then s.confirmLoop env.attempts job maxAckAttempts 0 []
    else ⟨none, s.emittedOnce (env.attempts 0) job⟩

/-! ### Sending a stream -/

/-- What `SendStream` finds around it; the whole of what it reads is `content`. --/
structure StreamSurroundings where
  lookup : Lookup
  ackToken : Bytes
  attempt : Moment

/-- Forwarded when a route can be built, and otherwise direct, unless that would give the sender away. --/
def streamOnce (m : Moment) (dest : Node) (nodes : List Node) (id : TransferID) (frags : List Fragment) (sc : Scheme)
    (ackToken : Bytes) :
    Tries Emission (Except SendError Unit) := do
  let route := if s.wantForward ∧ s.nodePriv.isSome ∧ 0 < dest.pubKey.length then
      ((s.newForwardCtx m dest nodes id sc ackToken).toOption).filter fun fc => 0 < fc.relays.length
    else none
  match route with
  | some fc => do
    let out ← Tries.each (fc.sendFragment s m) frags
    pure (out.mapError fun e => ⟨e, none⟩)
  | none =>
    if s.failClosed then
      pure (.error
        (.wrapping ("anonymity required but no relay route to " ++ dest.id ++ " (insufficient relays/diversity)")
        .noAnonymousRoute))
    else do
      let out ← s.streamDirect dest id sc frags
      pure (out.mapError fun e => ⟨e, none⟩)

def sendStream (env : StreamSurroundings) (id : TransferID) (content : Bytes) (destNode : String) : Outcome :=
  let nodes := env.lookup.resolveDest destNode
  if s.cfg.sealer.isNone ∨ s.cfg.dataShards ≤ 0 ∨ s.cfg.parityShards ≤ 0 then
    ⟨some ⟨"streaming requires a content key and erasure coding (DataShards/ParityShards)", none⟩, []⟩
  else if destNode = "" then ⟨some ⟨"streaming requires a destination node", none⟩, []⟩
  else
    match nodes.find? (·.id = destNode) with
    | none => ⟨some ⟨"destination node " ++ destNode ++ " is not active", none⟩, []⟩
    | some dest =>
      let (sealer, hybrid, pq) := s.contentSealer (some dest)
      let sc := s.cfg.streamScheme hybrid pq false
      let (frags, err) := s.cfg.streamBlocks s.rs content id sealer 0
      let ackToken := if s.confirm then env.ackToken else []
      let out := (s.streamOnce env.attempt dest nodes id frags sc ackToken).run env.attempt.answers
      let error : Option SendError :=
        match out.value, err with
        | .error e, _ => some e
        | .ok (), some e => some ⟨e, none⟩
        | .ok (), none =>
          if s.confirm then
            match env.attempt.wait with
            | .acked => none
            | .timeout => some ⟨"stream to " ++ destNode ++ " not confirmed within " ++ streamAckTimeout, none⟩
            | .canceled => some ⟨"transfer canceled", none⟩
          else none
      ⟨error, out.done⟩

end Sender
end SyncSwarm.Transfer
