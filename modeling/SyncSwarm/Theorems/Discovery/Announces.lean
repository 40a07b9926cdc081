import SyncSwarm.Discovery.Network
import SyncSwarm.Theorems.Discovery.Shell
import SyncSwarm.Theorems.Discovery.Paths

/-! What a step of a node writes into its path table, and which announces it sends. -/

set_option linter.dupNamespace false

namespace SyncSwarm.Discovery
open Lib Protocol List Option

namespace Discovery
variable {env : Env} {cfg : Config} {w u : Discovery} {a : Action} {m : Emit} {pkt : SignedPacket}

/-- What an action can do to the paths. --/
inductive Charts (env : Env) (cfg : Config) (w : Discovery) : Action → PathTable → Prop where
  | same {a : Action} : Charts env cfg w a w.paths
  | announced {addr remoteAddr : String} {srcIface : Interface} {pkt : SignedPacket} {nonce : UInt64}
    {ap : AnnouncePayload} :
    env.net.resolve addr = some remoteAddr → pkt.type = .announce → env.json.announce.unmarshal pkt.payload = some ap →
    ap.destHash ≠ cfg.selfID → ap.verifyBound env.sigs = true →
    Charts env cfg w (.frame addr srcIface pkt nonce)
      (w.paths.update env.pathIter ap.destHash (announcedPath cfg ap remoteAddr w.now) .announced).1
  | reversed {addr remoteAddr : String} {srcIface : Interface} {pkt ip : SignedPacket} {nonce : UInt64} :
    env.net.resolve addr = some remoteAddr → pkt.type = .routedDiscovery → Brings cfg pkt ip →
      ip.verify env.sigs = true →
    ip.signerID env.sigs ≠ cfg.selfID →
    Charts env cfg w (.frame addr srcIface pkt nonce)
      (w.paths.update env.pathIter (ip.signerID env.sigs) (reversePath remoteAddr srcIface ip w.now) .reversed).1

theorem step_charts (h : next env cfg w a = some u) : Charts env cfg w a u.paths := by
  have hmoves := step_cases h
  show Charts env cfg w a u.core.paths
  generalize u.core = c at hmoves
  cases hmoves with
  | handled hresolve hhandles =>
    cases hhandles with
    | announced _ htype hap hself hbound => exact .announced hresolve htype hap hself hbound
    | replied => rw [Core.paths_reply]; exact .same
    | routed hbrings htype hv hself | routedPeer hbrings htype hv hself =>
      exact .reversed hresolve htype hbrings hv hself
    | routedReply hbrings htype hv hself => rw [Core.paths_reply]; exact .reversed hresolve htype hbrings hv hself
    | _ => exact .same
  | _ => exact .same

/-! ### What the packets of a node are -/

@[simp] theorem type_sign (S : Signatures) (priv : Bytes) (p : SignedPacket) : (p.sign S priv).type = p.type := by
  rw [SignedPacket.sign]
  split <;> rfl

@[simp] theorem payload_sign (S : Signatures) (priv : Bytes) (p : SignedPacket) :
    (p.sign S priv).payload = p.payload := by
  rw [SignedPacket.sign]
  split <;> rfl

@[simp] theorem type_signedPacket (type : PacketType) (payload : Bytes) (destNode : String) :
    (w.signedPacket env cfg type payload destNode).type = type := by
  rw [signedPacket, type_sign]
  rfl

@[simp] theorem payload_signedPacket (type : PacketType) (payload : Bytes) (destNode : String) :
    (w.signedPacket env cfg type payload destNode).payload = payload := by
  rw [signedPacket, payload_sign]
  rfl

theorem pkt_sendTo {nodeID addr : String} (h : m ∈ w.sendTo cfg nodeID addr pkt) : m.pkt = pkt := by
  obtain ⟨i, -, rfl⟩ := map_eq_some_iff.mp (mem_toList.mp h)
  rfl

theorem pkt_floodFrame (h : m ∈ floodFrame pkt) : m.pkt = pkt := by
  rw [mem_singleton.mp h, Emit.pkt]

theorem pkt_floodFrameDirect (h : m ∈ w.floodFrameDirect env cfg pkt) : m.pkt = pkt := by
  rcases mem_append.mp h with h | h
  · exact pkt_floodFrame h
  · obtain ⟨t, -, h⟩ := mem_flatMap.mp h
    exact pkt_sendTo h

variable {dest : String} {ap : AnnouncePayload} {hopLimit : UInt8}

theorem pkt_routeToward (h : m ∈ w.routeToward cfg dest pkt) : m.pkt = pkt := by
  rw [routeToward] at h
  split at h
  · cases h
  · split at h
    · cases h
    · obtain ⟨i, -, rfl⟩ := map_eq_some_iff.mp (mem_toList.mp h)
      rfl

theorem pkt_sendAnnounce {direct : Bool} (h : m ∈ w.sendAnnounce env cfg ap direct) :
    m.pkt.payload = env.json.announce.marshal ap := by
  rw [sendAnnounce] at h
  split at h
  · cases h
  · simp only at h
    split at h
    · rw [pkt_floodFrameDirect h, payload_signedPacket]
    · rw [pkt_floodFrame h, payload_signedPacket]

/-! ### Packets that are no announces -/

theorem quiet_sendPathRequest {pr : PathRequestPayload} (h : m ∈ w.sendPathRequest env cfg pr) :
    m.pkt.type ≠ .announce := by
  rw [sendPathRequest] at h
  split at h
  · cases h
  · rw [pkt_floodFrameDirect h, type_signedPacket]
    nofun

theorem quiet_sendRoutedAs {type : PacketType} {inner : Bytes}
    (h : m ∈ w.sendRoutedAs env cfg type dest inner hopLimit) (htype : type ≠ .announce) : m.pkt.type ≠ .announce := by
  rw [pkt_routeToward h]
  exact htype

theorem quiet_sendRoutedDiscovery {signed : Bytes}
    (h : m ∈ w.sendRoutedDiscovery env cfg dest signed hopLimit) : m.pkt.type ≠ .announce := quiet_sendRoutedAs h nofun

theorem quiet_forwardRouted (htype : pkt.type ≠ .announce) (h : m ∈ w.forwardRouted cfg pkt) :
    m.pkt.type ≠ .announce := by
  rw [forwardRouted] at h
  split at h
  · cases h
  · split at h
    · cases h
    · rw [pkt_routeToward h]
      exact htype

theorem quiet_gossipPeers (h : m ∈ w.gossipPeers env cfg) : m.pkt.type ≠ .announce := by
  obtain ⟨t, -, h⟩ := mem_flatMap.mp h
  obtain ⟨addr, -, h⟩ := mem_flatMap.mp h
  rw [pkt_sendTo h, type_signedPacket]
  nofun

theorem quiet_discoveryPacket (h : m ∈ floodFrame (w.discoveryPacket env cfg)) : m.pkt.type ≠ .announce := by
  rw [pkt_floodFrame h, discoveryPacket, type_signedPacket]
  nofun

theorem quiet_checkFrames {x : Probe} {nonce : UInt64} (h : m ∈ w.checkFrames env cfg x nonce) :
    m.pkt.type ≠ .announce := by
  simp only [checkFrames] at h
  split at h
  · rcases mem_append.mp h with h | h
    · exact quiet_sendRoutedDiscovery h
    · obtain ⟨addr, -, h⟩ := mem_flatMap.mp h
      obtain ⟨i, -, rfl⟩ := mem_map.mp h
      rw [Emit.pkt, type_signedPacket]
      nofun
  · obtain ⟨addr, -, h⟩ := mem_flatMap.mp h
    rw [pkt_sendTo h, type_signedPacket]
    nofun

theorem quiet_handleRouted (htype : pkt.type = .routed) (h : m ∈ (w.handleRouted cfg pkt).2) :
    m.pkt.type ≠ .announce := by
  simp only [handleRouted] at h
  split at h
  · cases h
  · split at h
    · cases h
    · exact quiet_forwardRouted (htype.trans_ne (by decide)) h

theorem quiet_handleRoutedDiscovery {from' : String} {srcIface : Interface} (htype : pkt.type = .routedDiscovery)
    (h : m ∈ (w.handleRoutedDiscovery env cfg pkt from' srcIface).2) : m.pkt.type ≠ .announce := by
  simp only [handleRoutedDiscovery] at h
  split at h
  · cases h
  split at h
  swap
  · exact quiet_forwardRouted (htype.trans_ne (by decide)) h
  split at h
  · cases h
  rw [deliverRoutedDiscovery] at h
  split at h
  · cases h
  simp only at h
  split at h
  · cases h
  split at h
  · cases h
  split at h
  · cases h
  rw [acceptRoutedDiscovery] at h
  split at h
  · exact quiet_sendRoutedDiscovery h
  all_goals cases h

theorem quiet_handleDiscovery {remoteAddr : String} {payload : DiscoveryPayload}
    (h : m ∈ (w.handleDiscovery env cfg remoteAddr pkt payload).2) : m.pkt.type ≠ .announce := by
  rw [handleDiscovery] at h
  split at h
  · split at h <;> cases h
  · split at h
    · rw [pkt_sendTo h, latencyReply, type_signedPacket]
      decide
    · cases h
  all_goals cases h

/-! ### Announces -/

/-- The announces of a step. A stored announce is told with one hop more, and so is an announce of the table. --/
inductive Tells (env : Env) (cfg : Config) (w : Discovery) : Action → Discovery → AnnouncePayload → Prop where
  | own {a : Action} {u v : Discovery} {nonce : UInt64} {ap : AnnouncePayload} :
    v.buildSelfAnnounce env cfg nonce = some ap →
    Tells env cfg w a u ap
  | forwarded {a : Action} {u : Discovery} {ap : AnnouncePayload} {remoteAddr : String} : w.isTransport = true →
    ap.hopCount.toNat + 1 ≤ announceHopMax → ap.verifyBound env.sigs = true →
    u.paths = w.paths.store env.pathIter ap.destHash (announcedPath cfg ap remoteAddr w.now) .announced →
    Tells env cfg w a u { ap with hopCount := ap.hopCount + 1 }
  | answered {addr : String} {srcIface : Interface} {pkt : SignedPacket} {nonce : UInt64} {u : Discovery}
    {pr : PathRequestPayload}
    {e : PathEntry} {ann : AnnouncePayload} : pkt.type = .pathRequest →
      env.json.pathRequest.unmarshal pkt.payload = some pr →
    w.paths.lookup pr.destHash = some e → e.ann = some ann → u.paths = w.paths →
    Tells env cfg w (.frame addr srcIface pkt nonce) u { ann with hopCount := e.hops + 1 }

theorem Tells.of_same {v : Discovery} (h : Tells env cfg v a u ap) (hpaths : v.paths = w.paths)
    (hcapabilities : v.capabilities = w.capabilities) (hnow : v.now = w.now) : Tells env cfg w a u ap := by
  cases h with
  | own hap => exact .own hap
  | forwarded htransport hhops hbound hstore =>
    rw [isTransport, hcapabilities] at htransport
    rw [hpaths, hnow] at hstore
    exact .forwarded htransport hhops hbound hstore
  | answered htype hpr he hann hsame => exact .answered htype hpr (hpaths ▸ he) hann (hsame.trans hpaths)

section
variable {remoteAddr addr : String} {srcIface : Interface} {nonce : UInt64}

theorem tells_announceSelf {v : Discovery} (h : m ∈ v.announceSelf env cfg nonce) :
    ∃ ap, m.pkt.payload = env.json.announce.marshal ap ∧ Tells env cfg w a u ap := by
  rw [announceSelf] at h
  split at h
  · cases h
  · split at h
    · next ap hap => exact ⟨ap, pkt_sendAnnounce h, .own hap⟩
    · cases h

theorem tells_acceptAnnounce {ap : AnnouncePayload} (hbound : ap.verifyBound env.sigs = true)
    (h : m ∈ (w.acceptAnnounce env cfg remoteAddr ap).2) :
    ∃ ap', m.pkt.payload = env.json.announce.marshal ap' ∧
      Tells env cfg w a (w.acceptAnnounce env cfg remoteAddr ap).1 ap' := by
  have hpaths : (w.acceptAnnounce env cfg remoteAddr ap).1.paths =
      (w.paths.update env.pathIter ap.destHash (announcedPath cfg ap remoteAddr w.now) .announced).1 :=
    congrArg Core.paths (core_acceptAnnounce ap)
  have hemits : (w.acceptAnnounce env cfg remoteAddr ap).2 = _ := congrArg Prod.snd (by rw [acceptAnnounce, sighted_eq])
  rw [hemits] at h
  simp only at h
  split at h
  next htests =>
    simp only [Bool.and_eq_true, decide_eq_true_eq] at htests
    obtain ⟨⟨hstored, htransport⟩, hhops⟩ := htests
    have hstore : (w.acceptAnnounce env cfg remoteAddr ap).1.paths =
        w.paths.store env.pathIter ap.destHash (announcedPath cfg ap remoteAddr w.now) .announced := by
      rw [hpaths]
      exact (PathTable.update_stored hstored).2
    exact ⟨_, pkt_sendAnnounce h, .forwarded htransport hhops hbound hstore⟩
  · cases h

theorem tells_handleAnnounce (h : m ∈ (w.handleAnnounce env cfg remoteAddr srcIface pkt).2) :
    ∃ ap, m.pkt.payload = env.json.announce.marshal ap ∧
      Tells env cfg w a (w.handleAnnounce env cfg remoteAddr srcIface pkt).1 ap := by
  rw [handleAnnounce] at h ⊢
  split at h
  · cases h
  next ap hap =>
    split at h
    · cases h
    next htests =>
      simp only at h
      split at h
      · cases h
      next hseen =>
        have hbound : ap.verifyBound env.sigs = true := eq_true_of_ne_false (not_or.mp htests).2
        obtain ⟨ap', hpayload, htells⟩ := tells_acceptAnnounce (a := a) hbound h
        refine ⟨ap', hpayload, ?_⟩
        simp only [if_neg htests, if_neg hseen]
        refine htells.of_same ?_ ?_ ?_
        · exact congrArg Core.paths (core_rememberIface _ _)
        · exact capabilities_rememberIface _ _
        · exact now_rememberIface _ _

theorem tells_handlePathRequest (htype : pkt.type = .pathRequest) (h : m ∈ (w.handlePathRequest env cfg pkt nonce).2)
    (hm : m.pkt.type = .announce) : ∃ ap, m.pkt.payload = env.json.announce.marshal ap ∧
      Tells env cfg w (.frame addr srcIface pkt nonce) (w.handlePathRequest env cfg pkt nonce).1 ap := by
  have hpaths : (w.handlePathRequest env cfg pkt nonce).1.paths = w.paths :=
    congrArg Core.paths (handlePathRequest_core nonce)
  generalize (w.handlePathRequest env cfg pkt nonce).1 = u at hpaths ⊢
  rw [handlePathRequest] at h
  split at h
  · cases h
  next pr hpr =>
  split at h
  · cases h
  simp only at h
  split at h
  · cases h
  simp only [answerPathRequest] at h
  split at h
  · split at h
    · next ap hap => exact ⟨ap, pkt_sendAnnounce h, .own hap⟩
    · cases h
  split at h
  next resp hresp =>
    obtain ⟨e, he, hresp⟩ := bind_eq_some_iff.mp hresp
    obtain ⟨ann, hann, rfl⟩ := map_eq_some_iff.mp hresp
    exact ⟨_, pkt_sendAnnounce h, .answered htype hpr he hann hpaths⟩
  · split at h
    · exact absurd hm (quiet_sendPathRequest h)
    · cases h

theorem tells_handleSigned (addr : String) (h : m ∈ (w.handleSigned env cfg remoteAddr srcIface pkt nonce).2)
    (hm : m.pkt.type = .announce) :
    ∃ ap, m.pkt.payload = env.json.announce.marshal ap ∧
      Tells env cfg w (.frame addr srcIface pkt nonce) (w.handleSigned env cfg remoteAddr srcIface pkt nonce).1 ap := by
  rw [handleSigned] at h ⊢
  split at h
  · split at h <;> cases h
  · split at h <;> cases h
  · split at h <;> cases h
  · exact tells_handleAnnounce h
  · next htype => exact tells_handlePathRequest htype h hm
  · cases h
  · cases h
  · split at h
    · cases h
    · exact absurd hm (quiet_handleDiscovery h)

theorem tells_receive (h : m ∈ (w.receive env cfg addr srcIface pkt nonce).2) (hm : m.pkt.type = .announce) :
    ∃ ap, m.pkt.payload = env.json.announce.marshal ap ∧
      Tells env cfg w (.frame addr srcIface pkt nonce) (w.receive env cfg addr srcIface pkt nonce).1 ap := by
  rw [receive] at h ⊢
  split at h
  · cases h
  next remoteAddr hresolve =>
  simp only at h
  split at h
  · cases h
  · cases h
  · cases h
  · next htype => exact absurd hm (quiet_handleRoutedDiscovery htype h)
  · next htype => exact absurd hm (quiet_handleRouted htype h)
  · split at h
    · cases h
    next hv =>
      obtain ⟨ap, hpayload, htells⟩ := tells_handleSigned addr h hm
      refine ⟨ap, hpayload, ?_⟩
      simp only [if_neg hv]
      refine htells.of_same ?_ ?_ ?_
      · exact (congrArg Core.paths (core_rememberIface _ _)).trans
          (congrArg Core.paths (core_rememberAddrIface addr srcIface))
      · exact (capabilities_rememberIface _ _).trans (capabilities_rememberAddrIface addr srcIface)
      · exact (now_rememberIface _ _).trans (now_rememberAddrIface addr srcIface)

end

theorem step_tells {emits : List Emit} (h : step env cfg w a = some (u, emits)) (hmem : m ∈ emits)
    (hm : m.pkt.type = .announce) :
    ∃ ap, m.pkt.payload = env.json.announce.marshal ap ∧ Tells env cfg w a u ap := by
  cases a with
  | frame addr srcIface pkt nonce =>
    have hpair := Option.some.inj h
    have hu := congrArg Prod.fst hpair
    have hemits := congrArg Prod.snd hpair
    subst hu hemits
    exact tells_receive hmem hm
  | findNode target =>
    obtain ⟨v, -, h⟩ := map_eq_some_iff.mp h
    cases h
    cases hmem
  | measure k ok =>
    obtain ⟨x, -, h⟩ := bind_eq_some_iff.mp h
    split at h
    · have hemits := congrArg Prod.snd (Option.some.inj h)
      subst hemits
      have hmem : m ∈ w.checkFrames env cfg x (w.nonceCounter + 1) := by
        simp only [measure] at hmem
        split at hmem <;> exact hmem
      exact absurd hm (quiet_checkFrames hmem)
    · cases h
  | answered k | conclude k =>
    obtain ⟨x, -, h⟩ := bind_eq_some_iff.mp h
    split at h
    · cases h
      cases hmem
    · cases h
  | timeout k | canceled k =>
    obtain ⟨x, -, h⟩ := bind_eq_some_iff.mp h
    split at h
    · split at h
      · cases h
        cases hmem
      · cases h
    · cases h
  | announceSelf nonce =>
    cases h
    exact tells_announceSelf hmem
  | requestPath dest nonce =>
    cases h
    exact absurd hm (quiet_sendPathRequest hmem)
  | sendRouted dest inner hopLimit =>
    cases h
    exact absurd hm (quiet_sendRoutedAs hmem (by decide))
  | broadcastDiscovery =>
    cases h
    exact absurd hm (quiet_discoveryPacket hmem)
  | gossipPeers =>
    cases h
    exact absurd hm (quiet_gossipPeers hmem)
  | setRelay on nonce =>
    cases h
    rcases mem_append.mp hmem with hmem | hmem
    · exact absurd hm (quiet_discoveryPacket hmem)
    · exact tells_announceSelf hmem
  | setRelayIDs ids nonce =>
    have hemits := congrArg Prod.snd (Option.some.inj h)
    subst hemits
    simp only at hmem
    split at hmem
    · cases hmem
    · exact tells_announceSelf hmem
  | checkLatencies | tick | stop =>
    cases h
    cases hmem

end Discovery
end SyncSwarm.Discovery
