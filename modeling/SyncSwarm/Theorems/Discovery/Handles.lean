import SyncSwarm.Discovery.Node
import SyncSwarm.Theorems.Discovery.Peers

/-! What a frame does to the records of peers, to the path table and to the latency checks. -/

set_option linter.dupNamespace false

namespace SyncSwarm.Discovery
open Lib Protocol

namespace Discovery
variable {env : Env} {cfg : Config} {w : Discovery}

/-- What packets change, apart from the caches. --/
structure Core where
  peers : Peers
  paths : PathTable
  pending : GoMap UInt64 PendingLatency
  probes : List Probe
  heard : List SignedPacket

def core (w : Discovery) : Core := ⟨w.peers, w.paths, w.pending, w.probes, w.heard⟩

@[simp] theorem core_rememberIface (id : String) (i : Interface) : (w.rememberIface id i).core = w.core := by
  rw [rememberIface]; split <;> rfl

@[simp] theorem core_rememberAddrIface (addr : String) (i : Interface) :
    (w.rememberAddrIface addr i).core = w.core := by
  rw [rememberAddrIface]; split <;> rfl

@[simp] theorem core_recordObserved (addr : String) : (w.recordObserved env addr).core = w.core := by
  rw [recordObserved]
  split
  · rfl
  · split <;> rfl

@[simp] theorem now_rememberIface (id : String) (i : Interface) : (w.rememberIface id i).now = w.now := by
  rw [rememberIface]; split <;> rfl

@[simp] theorem now_rememberAddrIface (addr : String) (i : Interface) : (w.rememberAddrIface addr i).now = w.now := by
  rw [rememberAddrIface]; split <;> rfl

@[simp] theorem now_recordObserved (addr : String) : (w.recordObserved env addr).now = w.now := by
  rw [recordObserved]
  split
  · rfl
  · split <;> rfl

inductive Brings (cfg : Config) (pkt : SignedPacket) : SignedPacket → Prop where
  | straight : pkt.type ≠ .routed → pkt.type ≠ .routedDiscovery → Brings cfg pkt pkt
  | carried {ip : SignedPacket} : pkt.type = .routedDiscovery → pkt.destNode = cfg.selfID →
    unmarshalBinary (routedInner pkt.payload) = some ip → Brings cfg pkt ip

namespace Core

def hear (c : Core) (ip : SignedPacket) : Core := { c with heard := c.heard ++ [ip] }

def op (c : Core) (env : Env) (cfg : Config) (now : Int) (o : PeerOp) : Core :=
  { c with peers := o.run env.sigs (cfg.peerConfig env) now c.peers }

def ops (c : Core) (env : Env) (cfg : Config) (now : Int) (os : List PeerOp) : Core :=
  { c with peers := c.peers.runAll env.sigs (cfg.peerConfig env) now os }

def path (c : Core) (env : Env) (dest : String) (e : PathEntry) (writer : Writer) : Core :=
  { c with paths := (c.paths.update env.pathIter dest e writer).1 }

def reply (c : Core) (now : Int) (nonce : UInt64) (signer : String) : Core :=
  match c.pending.get? nonce with
  | none => c
  | some p =>
    if p.nodeID = signer then { c with
      probes := c.probes.modify p.probe fun x => { x with reply := x.reply.or (some now) } } else c

section
variable (c : Core) (env : Env) (cfg : Config) (now : Int)

@[simp] theorem peers_hear (ip : SignedPacket) : (c.hear ip).peers = c.peers := rfl
@[simp] theorem paths_hear (ip : SignedPacket) : (c.hear ip).paths = c.paths := rfl
@[simp] theorem peers_op (o : PeerOp) :
    (c.op env cfg now o).peers = o.run env.sigs (cfg.peerConfig env) now c.peers := rfl
@[simp] theorem paths_op (o : PeerOp) : (c.op env cfg now o).paths = c.paths := rfl
@[simp] theorem peers_path (dest : String) (e : PathEntry) (writer : Writer) :
    (c.path env dest e writer).peers = c.peers := rfl

end

theorem reply_eq (c : Core) (now : Int) (nonce : UInt64) (signer : String) :
    ∃ probes, c.reply now nonce signer = { c with probes } := by
  rw [reply]
  split
  · exact ⟨c.probes, rfl⟩
  · split
    · exact ⟨_, rfl⟩
    · exact ⟨c.probes, rfl⟩

@[simp] theorem peers_reply (c : Core) (now : Int) (nonce : UInt64) (signer : String) :
    (c.reply now nonce signer).peers = c.peers := by
  obtain ⟨_, h⟩ := c.reply_eq now nonce signer
  rw [h]

@[simp] theorem paths_reply (c : Core) (now : Int) (nonce : UInt64) (signer : String) :
    (c.reply now nonce signer).paths = c.paths := by
  obtain ⟨_, h⟩ := c.reply_eq now nonce signer
  rw [h]

end Core

/-- The path that an announce teaches. --/
def announcedPath (cfg : Config) (ap : AnnouncePayload) (remoteAddr : String) (now : Int) : PathEntry :=
  { iface := ifaceName cfg.iface, nextHop := remoteAddr, hops := ap.hopCount, lastSeen := now, originTS := ap.timestamp,
    ann := some ap }

def gossipOps (env : Env) (pkt : SignedPacket) (px : PeerExchangePayload) : List PeerOp :=
  (px.peers.take maxGossipAccept).map fun pi =>
    .gossip pi ((pkt.signerID env.sigs ≠ "" && pkt.sourceNode = pkt.signerID env.sigs) && pi.nodeID =
      pkt.signerID env.sigs)

def contactSighting (c : DHTContact) : Sighting :=
  ⟨c.nodeID, c.address, c.pubKey, c.signKey, c.port, [], [], c.mlkemPub⟩

def contactOps (env : Env) (cfg : Config) (fr : FindNodeReplyPayload) : List PeerOp :=
  (fr.contacts.filter fun c =>
    !(c.nodeID = "" ∨ c.nodeID = cfg.selfID ∨ c.signKey.length = 0) && deriveNodeID env.sigs c.signKey =
      c.nodeID).map fun c =>
      .sight (contactSighting c) false

/-- What a packet can do. --/
inductive Handles (env : Env) (cfg : Config) (now : Int) (remoteAddr : String) (srcIface : Interface)
    (pkt : SignedPacket) (c : Core) :
    Core → Prop where
  | dropped : Handles env cfg now remoteAddr srcIface pkt c c
  | heard {ip : SignedPacket} : Brings cfg pkt ip → ip.verify env.sigs = true →
    Handles env cfg now remoteAddr srcIface pkt c (c.hear ip)
  | gossiped {px : PeerExchangePayload} : pkt.verify env.sigs = true → pkt.type = .peerExchange →
    env.json.peerExchange.unmarshal pkt.payload = some px →
    Handles env cfg now remoteAddr srcIface pkt c ((c.hear pkt).ops env cfg now (gossipOps env pkt px))
  | asked {fn : FindNodePayload} : pkt.verify env.sigs = true → pkt.type = .findNode →
    env.json.findNode.unmarshal pkt.payload = some fn → fn.nodeID = pkt.signerID env.sigs →
    Handles env cfg now remoteAddr srcIface pkt c
      ((c.hear pkt).op env cfg now (.sight ⟨fn.nodeID, remoteAddr, fn.pubKey, pkt.signerKey, fn.port, [], [], []⟩ true))
  | contacts {fr : FindNodeReplyPayload} : pkt.verify env.sigs = true → pkt.type = .findNodeReply →
    env.json.findNodeReply.unmarshal pkt.payload = some fr →
    Handles env cfg now remoteAddr srcIface pkt c ((c.hear pkt).ops env cfg now (contactOps env cfg fr))
  | announced {ap : AnnouncePayload} : pkt.verify env.sigs = true → pkt.type = .announce →
    env.json.announce.unmarshal pkt.payload = some ap → ap.destHash ≠ cfg.selfID → ap.verifyBound env.sigs = true →
    Handles env cfg now remoteAddr srcIface pkt c
      (((c.hear pkt).op env cfg now (.sight (announced ap remoteAddr) (ap.hopCount = 0))).path env ap.destHash
        (announcedPath cfg ap remoteAddr now) .announced)
  | discovered {payload : DiscoveryPayload} : pkt.verify env.sigs = true → pkt.type = .discovery ∨
    pkt.type = .latencyCheck →
    env.json.discovery.unmarshal pkt.payload = some payload → payload.nodeID = pkt.signerID env.sigs →
    Handles env cfg now remoteAddr srcIface pkt c
      ((c.hear pkt).op env cfg now (.sight (described payload remoteAddr pkt.signerKey) true))
  | replied {payload : DiscoveryPayload} : pkt.verify env.sigs = true → pkt.type = .latencyReply →
    env.json.discovery.unmarshal pkt.payload = some payload →
    Handles env cfg now remoteAddr srcIface pkt c ((c.hear pkt).reply now payload.nonce (pkt.signerID env.sigs))
  /-- A discovery packet has come by routing: the way back, and then what its type asks for. -/
  | routed {ip : SignedPacket} : Brings cfg pkt ip → pkt.type = .routedDiscovery → ip.verify env.sigs = true →
    ip.signerID env.sigs ≠ cfg.selfID →
    Handles env cfg now remoteAddr srcIface pkt c
      ((c.hear ip).path env (ip.signerID env.sigs) (reversePath remoteAddr srcIface ip now) .reversed)
  | routedReply {ip : SignedPacket} {payload : DiscoveryPayload} : Brings cfg pkt ip → pkt.type = .routedDiscovery →
    ip.verify env.sigs = true → ip.signerID env.sigs ≠ cfg.selfID → ip.type = .latencyReply →
    env.json.discovery.unmarshal ip.payload = some payload →
    Handles env cfg now remoteAddr srcIface pkt c
      (((c.hear ip).path env (ip.signerID env.sigs) (reversePath remoteAddr srcIface ip now) .reversed).reply
        now payload.nonce
        (ip.signerID env.sigs))
  | routedPeer {ip : SignedPacket} {payload : DiscoveryPayload} : Brings cfg pkt ip → pkt.type = .routedDiscovery →
    ip.verify env.sigs = true → ip.signerID env.sigs ≠ cfg.selfID → ip.type = .discovery →
    env.json.discovery.unmarshal ip.payload = some payload → payload.nodeID = ip.signerID env.sigs →
    Handles env cfg now remoteAddr srcIface pkt c
      (((c.hear ip).path env (ip.signerID env.sigs) (reversePath remoteAddr srcIface ip now) .reversed).op env cfg now
        (.sight (described payload "" ip.signerKey) true))

theorem core_resolveLatency (nonce : UInt64) (signer : String) :
    (w.resolveLatency nonce signer).core = w.core.reply w.now nonce signer := by
  simp only [resolveLatency, Core.reply, core]
  cases w.pending.get? nonce with
  | none => rfl
  | some p =>
    simp only
    split <;> rfl

theorem core_updateNode (s : Sighting) : (w.updateNode env cfg s).core = w.core.op env cfg w.now (.sight s true) := rfl

theorem core_mergePeers (pkt : SignedPacket) (px : PeerExchangePayload) :
    (w.mergePeers env cfg pkt px).core = w.core.ops env cfg w.now (gossipOps env pkt px) := by
  simp only [mergePeers, core, Core.ops, gossipOps, Peers.runAll, List.foldl_map]
  rfl

theorem learnContacts_eq (fr : FindNodeReplyPayload) (now : Int) (p : Peers) :
    p.learnContacts env.sigs (cfg.peerConfig env) now fr.contacts =
      p.runAll env.sigs (cfg.peerConfig env) now (contactOps env cfg fr) := by
  rw [Peers.learnContacts, contactOps, Peers.runAll, List.foldl_map, List.foldl_filter]
  congr 1
  funext p c
  by_cases hskip : c.nodeID = "" ∨ c.nodeID = cfg.selfID ∨ c.signKey.length = 0
  · rw [decide_eq_true hskip, Bool.not_true, Bool.false_and, if_neg Bool.false_ne_true]
    exact if_pos hskip
  · rw [decide_eq_false hskip, Bool.not_false, Bool.true_and]
    refine (if_neg hskip).trans ?_
    by_cases hbound : deriveNodeID env.sigs c.signKey = c.nodeID
    · rw [if_neg (not_not_intro hbound), if_pos (decide_eq_true hbound)]
      rfl
    · rw [if_pos hbound, if_neg (mt of_decide_eq_true hbound)]

section
variable {remoteAddr : String} {srcIface : Interface} {pkt : SignedPacket}

theorem sighted_eq (ap : AnnouncePayload) :
    (if ap.hopCount = 0 then w.updateNode env cfg (announced ap remoteAddr) else w.learnCandidate env cfg
      (announced ap remoteAddr)) =
      { w with
        peers := w.peers.upsertNode (cfg.peerConfig env) w.now (announced ap remoteAddr) (ap.hopCount = 0) } := by
  split
  · next h => rw [decide_eq_true h]; rfl
  · next h => rw [decide_eq_false h]; rfl

theorem core_acceptAnnounce (ap : AnnouncePayload) :
    (w.acceptAnnounce env cfg remoteAddr ap).1.core =
      (w.core.op env cfg w.now (.sight (announced ap remoteAddr) (ap.hopCount = 0))).path env ap.destHash
        (announcedPath cfg ap remoteAddr w.now) .announced := by
  rw [acceptAnnounce, sighted_eq]
  rfl

theorem handleAnnounce_core (env : Env) (cfg : Config) (w : Discovery) (remoteAddr : String) (srcIface : Interface)
    (pkt : SignedPacket) :
    (w.handleAnnounce env cfg remoteAddr srcIface pkt).1.core = w.core ∨
    ∃ ap, env.json.announce.unmarshal pkt.payload = some ap ∧ ap.destHash ≠ cfg.selfID ∧
      ap.verifyBound env.sigs = true ∧
      (w.handleAnnounce env cfg remoteAddr srcIface pkt).1.core =
        (w.core.op env cfg w.now (.sight (announced ap remoteAddr) (ap.hopCount = 0))).path env ap.destHash
          (announcedPath cfg ap remoteAddr w.now) .announced := by
  rw [handleAnnounce]
  split
  · exact .inl rfl
  next ap hap =>
    split
    · exact .inl rfl
    next htests =>
      obtain ⟨hself, hbound⟩ := not_or.mp htests
      have hquiet : ∀ seenAnn, ({ w.rememberIface ap.destHash srcIface with seenAnn } : Discovery).core =
          w.core := fun _ =>
        core_rememberIface _ _
      simp only
      split
      · exact .inl (hquiet _)
      · refine .inr ⟨ap, hap, hself, eq_true_of_ne_false hbound, ?_⟩
        rw [core_acceptAnnounce, hquiet]
        simp only [now_rememberIface]

theorem handlePathRequest_core (nonce : UInt64) : (w.handlePathRequest env cfg pkt nonce).1.core = w.core := by
  rw [handlePathRequest]
  split
  · rfl
  · split
    · rfl
    · simp only
      split <;> rfl

theorem handleRouted_core : (w.handleRouted cfg pkt).1.core = w.core := by
  simp only [handleRouted]
  split
  · rfl
  · split <;> rfl

theorem handleDiscovery_core (env : Env) (cfg : Config) (w : Discovery) (remoteAddr : String) (pkt : SignedPacket)
    (payload : DiscoveryPayload) :
    (w.handleDiscovery env cfg remoteAddr pkt payload).1.core = w.core ∨
    (pkt.type = .discovery ∨ pkt.type = .latencyCheck) ∧ payload.nodeID = pkt.signerID env.sigs ∧
      (w.handleDiscovery env cfg remoteAddr pkt payload).1.core =
        w.core.op env cfg w.now (.sight (described payload remoteAddr pkt.signerKey) true) ∨
    pkt.type = .latencyReply ∧ (w.handleDiscovery env cfg remoteAddr pkt payload).1.core =
        w.core.reply w.now payload.nonce (pkt.signerID env.sigs) := by
  rw [handleDiscovery]
  split
  next htype =>
    split
    · next hbound => exact .inr (.inl ⟨.inl htype, hbound.1, rfl⟩)
    · exact .inl rfl
  next htype =>
    split
    · next hbound => exact .inr (.inl ⟨.inr htype, hbound.1, rfl⟩)
    · exact .inl rfl
  next htype =>
    refine .inr (.inr ⟨htype, ?_⟩)
    rw [core_resolveLatency]
    split
    · rw [core_recordObserved, now_recordObserved]
    · rfl
  · exact .inl rfl

theorem handles_signed {c : Core} (nonce : UInt64) (hv : pkt.verify env.sigs = true) (hc : w.core = c.hear pkt)
    (hrouted : pkt.type ≠ .routed) (hrouted' : pkt.type ≠ .routedDiscovery) :
    Handles env cfg w.now remoteAddr srcIface pkt c (w.handleSigned env cfg remoteAddr srcIface pkt nonce).1.core := by
  have hheard : Handles env cfg w.now remoteAddr srcIface pkt c (c.hear pkt) := .heard (.straight hrouted hrouted') hv
  rw [handleSigned]
  split
  next htype =>
    split
    · rwa [hc]
    next px hpx =>
      rw [core_mergePeers, hc]
      exact .gossiped hv htype hpx
  next htype =>
    split
    · rwa [hc]
    next fn hfn =>
      rw [handleFindNode]
      split
      · rwa [hc]
      next hbound =>
        rw [core_updateNode, hc]
        exact .asked hv htype hfn (not_not.mp (not_or.mp hbound).1)
  next htype =>
    split
    · rwa [hc]
    next fr hfr =>
      have : Handles env cfg w.now remoteAddr srcIface pkt c ((c.hear pkt).ops env cfg w.now (contactOps env cfg fr)) :=
        .contacts hv htype hfr
      rw [← hc] at this
      rwa [learnContacts_eq]
  next htype =>
    rcases handleAnnounce_core env cfg w remoteAddr srcIface pkt with hcore | ⟨ap, hap, hself, hbound, hcore⟩
    · rw [hcore, hc]
      exact hheard
    · rw [hcore, hc]
      exact .announced hv htype hap hself hbound
  · rw [handlePathRequest_core, hc]
    exact hheard
  · rwa [hc]
  · rwa [hc]
  · split
    · rwa [hc]
    next payload hpayload =>
      rcases handleDiscovery_core env cfg w remoteAddr pkt payload with hcore | ⟨htype, hbound, hcore⟩ | ⟨htype, hcore⟩
      · rw [hcore, hc]
        exact hheard
      · rw [hcore, hc]
        exact .discovered hv htype hpayload hbound
      · rw [hcore, hc]
        exact .replied hv htype hpayload

@[simp] theorem core_learnReverse (ip : SignedPacket) : (w.learnReverse env ip remoteAddr srcIface).core =
    w.core.path env (ip.signerID env.sigs) (reversePath remoteAddr srcIface ip w.now) .reversed := by
  simp only [learnReverse, rememberIface]
  split <;> rfl

@[simp] theorem now_learnReverse (ip : SignedPacket) :
    (w.learnReverse env ip remoteAddr srcIface).now = w.now := now_rememberIface _ _

theorem handles_acceptRoutedDiscovery {c : Core} {ip : SignedPacket} {payload : DiscoveryPayload}
    (hc : w.core = c.hear ip) (hbrings : Brings cfg pkt ip) (htype : pkt.type = .routedDiscovery)
    (hv : ip.verify env.sigs = true) (hself : ip.signerID env.sigs ≠ cfg.selfID)
    (hpayload : env.json.discovery.unmarshal ip.payload = some payload)
    (hbound : payload.nodeID = ip.signerID env.sigs) :
    Handles env cfg w.now remoteAddr srcIface pkt c
      (w.acceptRoutedDiscovery env cfg ip payload remoteAddr srcIface).1.core := by
  rw [acceptRoutedDiscovery]
  split
  · rw [core_learnReverse, hc]
    exact .routed hbrings htype hv hself
  next hreply =>
    rw [core_resolveLatency, core_learnReverse, now_learnReverse, hc]
    exact .routedReply hbrings htype hv hself hreply hpayload
  next hdiscovery =>
    have hsame : described { payload with nodeID := ip.signerID env.sigs } "" ip.signerKey =
        described payload "" ip.signerKey := by
      rw [← hbound]
    rw [core_updateNode, core_learnReverse, now_learnReverse, hc, hsame]
    exact .routedPeer hbrings htype hv hself hdiscovery hpayload hbound
  · rw [core_learnReverse, hc]
    exact .routed hbrings htype hv hself

theorem handles_routedDiscovery (htype : pkt.type = .routedDiscovery) :
    Handles env cfg w.now remoteAddr srcIface pkt w.core
      (w.handleRoutedDiscovery env cfg pkt remoteAddr srcIface).1.core := by
  simp only [handleRoutedDiscovery]
  split
  · exact .dropped
  split
  swap
  · exact .dropped
  next hdest =>
  split
  · exact .dropped
  next ip hip =>
  have hbrings : Brings cfg pkt ip := .carried htype hdest hip
  rw [deliverRoutedDiscovery]
  split
  · exact .dropped
  next hv =>
  have hv := eq_true_of_ne_false hv
  simp only
  split
  · exact .heard hbrings hv
  next htests =>
  split
  · exact .heard hbrings hv
  next payload hpayload =>
  split
  · exact .heard hbrings hv
  next hbound =>
  simp only [not_or] at htests
  have hquiet : ∀ routedSeen, ({ w with routedSeen, heard := w.heard ++ [ip] } : Discovery).core =
      w.core.hear ip := fun _ => rfl
  exact handles_acceptRoutedDiscovery (hquiet _) hbrings htype hv htests.2.1 hpayload (not_not.mp hbound)

theorem receive_handles (addr : String) (nonce : UInt64) :
    (w.receive env cfg addr srcIface pkt nonce).1.core = w.core ∨
    ∃ remoteAddr, env.net.resolve addr = some remoteAddr ∧
      Handles env cfg w.now remoteAddr srcIface pkt w.core (w.receive env cfg addr srcIface pkt nonce).1.core := by
  rw [receive]
  split
  · exact .inl rfl
  next remoteAddr hresolve =>
  refine .inr ⟨remoteAddr, hresolve, ?_⟩
  simp only
  split
  · rw [core_rememberAddrIface]; exact .dropped
  · rw [core_rememberAddrIface]; exact .dropped
  · rw [core_rememberAddrIface]; exact .dropped
  next htype =>
    have h : Handles env cfg (w.rememberAddrIface addr srcIface).now remoteAddr srcIface pkt _ _ :=
      handles_routedDiscovery htype
    rwa [core_rememberAddrIface, now_rememberAddrIface] at h
  · rw [handleRouted_core, core_rememberAddrIface]
    exact .dropped
  next hdiscovery hrouted =>
    split
    · rw [core_rememberAddrIface]
      exact .dropped
    next hv =>
      have hv := eq_true_of_ne_false hv
      have hcore : ∀ v : Discovery, v.core = w.core →
          (({ v with heard := v.heard ++ [pkt] } : Discovery).rememberIface (pkt.signerID env.sigs) srcIface).core =
            w.core.hear pkt := by
        intro v hv
        rw [core_rememberIface, ← hv]
        rfl
      have h : Handles env cfg _ remoteAddr srcIface pkt w.core _ :=
        handles_signed nonce hv (hcore _ (core_rememberAddrIface addr srcIface)) hrouted hdiscovery
      simpa only [now_rememberIface, now_rememberAddrIface] using h

end

end Discovery
end SyncSwarm.Discovery
