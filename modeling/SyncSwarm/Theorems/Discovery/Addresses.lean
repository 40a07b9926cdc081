import SyncSwarm.Theorems.Discovery.Floods
import SyncSwarm.Theorems.Discovery.Routed
import SyncSwarm.Theorems.Network.LoopFree

/-! Addresses of nodes that were heard of through others. -/

set_option linter.dupNamespace false

namespace SyncSwarm.Discovery
open Lib Protocol Option

namespace Peers
variable {S : Signatures} {cfg : PeerConfig} {p : Peers} {s : Sighting} {id : String}

/-- The recorded address of a node, empty for one that is not in the table. --/
def addressOf (p : Peers) (id : String) : String := ((p.node? id).map (·.address)).getD ""

theorem addressOf_of_some {n : Node} (h : p.node? id = some n) : p.addressOf id = n.address := by rw [addressOf, h]; rfl

/-- The table has a record for the node, or makes room for one. --/
def TakesUp (cfg : PeerConfig) (p : Peers) (id addr : String) : Prop :=
  (p.node? id).isSome ∨ p.nodes.get? id = none ∧ (p.admitLocked cfg addr).isSome

/-- What a node that is taken up has for its address afterwards. --/
theorem addressOf_admitted {verified : Bool} (now : Int) (hself : s.nodeID ≠ cfg.selfID)
    (htakes : p.TakesUp cfg s.nodeID s.addr) :
    ((PeerOp.sight s verified).run S cfg now p).addressOf s.nodeID =
      (PeerOp.sight s verified).leaves (p.node? s.nodeID) := by
  rcases htakes with hsome | ⟨hnew, hroom⟩
  · obtain ⟨n, hn⟩ := isSome_iff_exists.mp hsome
    obtain ⟨ref, href, hobject⟩ := bind_eq_some_iff.mp hn
    have hrun : (PeerOp.sight s verified).run S cfg now p =
        (p.setObject ref (s.refresh now verified n)).contact verified s := by
      rw [PeerOp.run, upsertNode, if_neg hself, href]
      simp only [hobject]
    have hchanged : ((p.setObject ref (s.refresh now verified n)).contact verified s).node? s.nodeID =
        some (s.refresh now verified n) := by
      rw [contact_eq]
      refine bind_eq_some_iff.mpr ⟨ref, href, ?_⟩
      simp only [setObject, List.getElem?_set', if_pos, hobject]
      rfl
    rw [hrun, addressOf_of_some hchanged, hn]
    exact @PeerOp.change_address (.sight s verified) now n
  · obtain ⟨q, hq⟩ := isSome_iff_exists.mp hroom
    have hrun : (PeerOp.sight s verified).run S cfg now p = (q.add (s.node now verified)).contact verified s := by
      rw [PeerOp.run, upsertNode, if_neg hself, hnew]
      simp only [hq]
    have hadded : ((q.add (s.node now verified)).contact verified s).node? s.nodeID = some (s.node now verified) := by
      rw [contact_eq]
      exact bind_eq_some_iff.mpr ⟨q.objects.length, GoMap.get?_set_self q.nodes s.nodeID q.objects.length,
        List.getElem?_concat_length⟩
    rw [hrun, addressOf_of_some hadded, node?, hnew]
    rfl

theorem addressOf_refused {verified : Bool} (now : Int) (htakes : ¬p.TakesUp cfg s.nodeID s.addr) :
    ((PeerOp.sight s verified).run S cfg now p).addressOf s.nodeID = p.addressOf s.nodeID := by
  have htold := run_told S cfg now p (.sight s verified)
  generalize (PeerOp.sight s verified).run S cfg now p = q at htold
  cases htold with
  | same => rfl
  | @updated ref n _ href hn =>
    exact absurd (.inl (isSome_iff_exists.mpr ⟨n, bind_eq_some_iff.mpr ⟨ref, href, hn⟩⟩)) htakes
  | added _ hnew hq => exact absurd (.inr ⟨hnew, isSome_iff_exists.mpr ⟨_, hq⟩⟩) htakes

theorem leaves_candidate : (PeerOp.sight s false).leaves (p.node? s.nodeID) =
    if p.addressOf s.nodeID = "" then s.addr else p.addressOf s.nodeID := by
  rw [addressOf]
  cases p.node? s.nodeID <;> rfl

theorem leaves_verified : (PeerOp.sight s true).leaves (p.node? s.nodeID) = s.addr := by
  cases p.node? s.nodeID <;> rfl

theorem takesUp_of_known {addr : String} (h : p.addressOf id ≠ "") : p.TakesUp cfg id addr := by
  refine .inl ?_
  rw [addressOf] at h
  cases hn : p.node? id with
  | none =>
    rw [hn] at h
    exact absurd rfl h
  | some n => rfl

end Peers

namespace Discovery
variable {env : Env} {cfg : Config} {w u : Discovery} {addr remoteAddr : String} {srcIface : Interface}
  {pkt ip : SignedPacket}
  {nonce : UInt64} {ap : AnnouncePayload} {payload : DiscoveryPayload}

/-! ### Announces -/

/-- The frame passes the tests of `handleAnnounce`. --/
structure Accepts (env : Env) (cfg : Config) (w : Discovery) (addr : String) (pkt : SignedPacket) (ap : AnnouncePayload)
    (remoteAddr : String) : Prop where
  resolve : env.net.resolve addr = some remoteAddr
  verify : pkt.verify env.sigs = true
  other : ap.destHash ≠ cfg.selfID
  bound : ap.verifyBound env.sigs = true
  new : (w.seenAnn.observe w.now (announceKey ap)).1 = false

theorem peers_announce (htype : pkt.type = .announce) (hap : env.json.announce.unmarshal pkt.payload = some ap) :
    (∃ remoteAddr, Accepts env cfg w addr pkt ap remoteAddr ∧ (w.receive env cfg addr srcIface pkt nonce).1.peers =
      (PeerOp.sight (announced ap remoteAddr) (ap.hopCount = 0)).run env.sigs (cfg.peerConfig env) w.now w.peers) ∨
    (∀ remoteAddr, ¬Accepts env cfg w addr pkt ap remoteAddr) ∧
      (w.receive env cfg addr srcIface pkt nonce).1.peers = w.peers := by
  cases hresolve : env.net.resolve addr with
  | none =>
    exact .inr ⟨fun _ h => (some_ne_none _ (h.resolve.symm.trans hresolve)).elim, by rw [receive_unresolved hresolve]⟩
  | some remoteAddr =>
    by_cases hverify : pkt.verify env.sigs = true
    swap
    · refine .inr ⟨fun _ h => hverify h.verify, ?_⟩
      rw [receive, hresolve]
      simp only [htype, if_pos (eq_false_of_ne_true hverify)]
      exact (alike_rememberAddrIface addr srcIface).peers
    obtain ⟨v, hv, hreceive⟩ := @receive_announce env cfg w addr remoteAddr srcIface pkt nonce hresolve htype hverify
    rw [hreceive]
    by_cases htests : ap.destHash = cfg.selfID ∨ ap.verifyBound env.sigs = false
    · refine .inr ⟨fun _ h => htests.elim h.other (ne_false_of_eq_true h.bound), ?_⟩
      rw [handleAnnounce, hap]
      simp only [if_pos htests]
      exact hv.peers
    by_cases hseen : (v.seenAnn.observe v.now (announceKey ap)).1 = true
    · refine .inr ⟨fun _ h => ?_, (congrArg Core.peers (handleAnnounce_seen hap hseen).2).trans hv.peers⟩
      rw [hv.seenAnn, hv.now, h.new] at hseen
      cases hseen
    obtain ⟨v', hpeers, -, -, hnow, haccept⟩ :=
      @handleAnnounce_new env cfg v remoteAddr srcIface pkt ap hap htests hseen
    rw [hv.seenAnn, hv.now] at hseen
    obtain ⟨hother, hbound⟩ := not_or.mp htests
    refine .inl ⟨remoteAddr, ⟨hresolve, hverify, hother, eq_true_of_ne_false hbound, eq_false_of_ne_true hseen⟩, ?_⟩
    rw [haccept, ← hv.peers, ← hpeers, ← hv.now, ← hnow]
    exact congrArg Core.peers (core_acceptAnnounce ap)

/-! ### Packets that come by routing -/

/-- The frame passes the tests of `handleRoutedDiscovery` and `deliverRoutedDiscovery`. --/
structure Delivers (env : Env) (cfg : Config) (w : Discovery) (addr : String) (pkt ip : SignedPacket) : Prop where
  resolve : (env.net.resolve addr).isSome
  new : (w.routedSeen.observe w.now (hexString pkt.id.val)).1 = false
  dest : pkt.destNode = cfg.selfID
  verify : ip.verify env.sigs = true
  signed : ip.signerID env.sigs ≠ "" ∧ ip.signerID env.sigs ≠ cfg.selfID ∧ ip.sourceNode = ip.signerID env.sigs
  read : ∃ payload, env.json.discovery.unmarshal ip.payload = some payload ∧ payload.nodeID = ip.signerID env.sigs

theorem peers_acceptRoutedDiscovery : (w.acceptRoutedDiscovery env cfg ip payload remoteAddr srcIface).1.peers =
    if ip.type = .discovery then
      (PeerOp.sight (described { payload with nodeID := ip.signerID env.sigs } "" ip.signerKey) true).run env.sigs
        (cfg.peerConfig env)
        w.now w.peers
    else w.peers := by
  have hlearn : (w.learnReverse env ip remoteAddr srcIface).peers = w.peers := by
    rw [learnReverse]
    exact (alike_rememberIface (ip.signerID env.sigs) srcIface).peers
  rw [acceptRoutedDiscovery]
  split
  · next htype => simp only [htype]; exact hlearn
  · next htype =>
    simp only [htype]
    exact (congrArg Core.peers (core_resolveLatency _ _)).trans ((Core.peers_reply _ _ _ _).trans hlearn)
  · next htype =>
    rw [if_pos htype, ← hlearn, ← now_learnReverse]
    rfl
  · next _ _ hother => rw [if_neg hother]; exact hlearn

theorem peers_routed (htype : pkt.type = .routedDiscovery) (hip : unmarshalBinary (routedInner pkt.payload) = some ip) :
    (Delivers env cfg w addr pkt ip ∧ ip.type = .discovery ∧
      ∃ s : Sighting, s.nodeID = ip.signerID env.sigs ∧ s.addr = "" ∧
      (w.receive env cfg addr srcIface pkt nonce).1.peers =
        (PeerOp.sight s true).run env.sigs (cfg.peerConfig env) w.now w.peers) ∨
    ¬(Delivers env cfg w addr pkt ip ∧ ip.type = .discovery) ∧
      (w.receive env cfg addr srcIface pkt nonce).1.peers = w.peers := by
  have hmarked : (w.marked addr srcIface pkt).peers = w.peers := congrArg Core.peers (@core_marked w addr srcIface pkt)
  have hnow : (w.marked addr srcIface pkt).now = w.now := now_marked
  cases hresolve : env.net.resolve addr with
  | none =>
    refine .inr ⟨fun h => ?_, by rw [receive_unresolved hresolve]⟩
    have hsome := h.1.resolve
    rw [hresolve] at hsome
    cases hsome
  | some remoteAddr =>
    rw [receive_routes (.inr htype) hresolve]
    split
    · next hseen => exact .inr ⟨fun h => absurd (h.1.new.symm.trans hseen) (by decide), hmarked⟩
    next hnew =>
    split
    swap
    · next hdest => exact .inr ⟨fun h => hdest h.1.dest, hmarked⟩
    next hdest =>
    rw [if_neg (htype.trans_ne (by decide)), hip, elim_some, deliverRoutedDiscovery]
    split
    · next hverify => exact .inr ⟨fun h => absurd (h.1.verify.symm.trans hverify) (by decide), hmarked⟩
    next hverify =>
    simp only
    split
    · next htests =>
      exact .inr ⟨fun h => htests.elim h.1.signed.1 fun htests => htests.elim h.1.signed.2.1 fun hne =>
        hne h.1.signed.2.2, hmarked⟩
    next htests =>
    simp only [not_or, not_not] at htests
    split
    · next hnone =>
      refine .inr ⟨fun h => ?_, hmarked⟩
      obtain ⟨payload, hpayload, -⟩ := h.1.read
      cases hnone.symm.trans hpayload
    next payload hpayload =>
    split
    · next hbound =>
      refine .inr ⟨fun h => ?_, hmarked⟩
      obtain ⟨payload', hpayload', hbound'⟩ := h.1.read
      cases hpayload.symm.trans hpayload'
      exact hbound hbound'
    next hbound =>
    rw [peers_acceptRoutedDiscovery]
    have hdelivers : Delivers env cfg w addr pkt ip := ⟨by rw [hresolve]; rfl, eq_false_of_ne_true hnew, hdest,
      eq_true_of_ne_false hverify, htests, payload, hpayload, not_not.mp hbound⟩
    by_cases hdiscovery : ip.type = .discovery
    · rw [if_pos hdiscovery]
      refine .inl ⟨hdelivers, hdiscovery,
        described { payload with nodeID := ip.signerID env.sigs } "" ip.signerKey, rfl, rfl, ?_⟩
      rw [← hmarked, ← hnow]
    · rw [if_neg hdiscovery]
      exact .inr ⟨fun h => hdiscovery h.2, hmarked⟩

/-- An announce that has come over others leaves the address of its node just when the address is known or the
    announce is not accepted; and a packet that has come by routing leaves it just when it is not known, or the packet
    is no discovery packet or not delivered. --/
theorem forwarder_unrecorded (hnamed : ∀ r ∈ env.net.resolve addr, r ≠ "")
    (hstep : next env cfg w (.frame addr srcIface pkt nonce) = some u) :
    (∀ ap, pkt.type = .announce → env.json.announce.unmarshal pkt.payload = some ap → 0 < ap.hopCount →
      (u.peers.addressOf ap.destHash = w.peers.addressOf ap.destHash ↔ w.peers.addressOf ap.destHash ≠ "" ∨
        ∀ r, Accepts env cfg w addr pkt ap r → ¬w.peers.TakesUp (cfg.peerConfig env) ap.destHash r)) ∧
    ∀ ip, pkt.type = .routedDiscovery → unmarshalBinary (routedInner pkt.payload) = some ip →
      (u.peers.addressOf (ip.signerID env.sigs) = w.peers.addressOf (ip.signerID env.sigs) ↔
        w.peers.addressOf (ip.signerID env.sigs) = "" ∨ ip.type ≠ .discovery ∨ ¬Delivers env cfg w addr pkt ip) := by
  obtain rfl : (w.receive env cfg addr srcIface pkt nonce).1 = u := Option.some.inj hstep
  constructor
  · intro ap htype hap hhop
    have hhearsay : decide (ap.hopCount = 0) = false := decide_eq_false (Nat.ne_of_gt hhop ∘ congrArg UInt8.toNat)
    rcases @peers_announce env cfg w addr srcIface pkt nonce ap htype hap with
      ⟨r, haccepts, hpeers⟩ | ⟨hrefused, hpeers⟩
    swap
    · rw [hpeers]
      exact iff_of_true rfl (.inr fun r h => absurd h (hrefused r))
    rw [hpeers, hhearsay]
    by_cases htakes : w.peers.TakesUp (cfg.peerConfig env) ap.destHash r
    · have hleft :
        ((PeerOp.sight (announced ap r) false).run env.sigs (cfg.peerConfig env) w.now w.peers).addressOf ap.destHash =
          if w.peers.addressOf ap.destHash = "" then r else w.peers.addressOf ap.destHash :=
        (Peers.addressOf_admitted w.now
          (show (announced ap r).nodeID ≠ (cfg.peerConfig env).selfID from haccepts.other) htakes).trans
          Peers.leaves_candidate
      refine Iff.trans (b := w.peers.addressOf ap.destHash ≠ "") ?_
        ⟨.inl, fun h => h.resolve_right fun h => h r haccepts htakes⟩
      rw [hleft]
      split
      · next hblank => exact iff_of_false (hblank ▸ hnamed r haccepts.resolve) (not_not_intro hblank)
      · next hknown => exact iff_of_true rfl hknown
    · refine iff_of_true (Peers.addressOf_refused (s := announced ap r) w.now htakes) (.inr fun r' h => ?_)
      cases haccepts.resolve.symm.trans h.resolve
      exact htakes
  · intro ip htype hip
    rcases @peers_routed env cfg w addr srcIface pkt ip nonce htype hip with
      ⟨hdelivers, hdiscovery, s, hid, haddr, hpeers⟩ | ⟨hrefused, hpeers⟩
    swap
    · rw [hpeers]
      exact iff_of_true rfl (.inr (by tauto))
    have hself : s.nodeID ≠ (cfg.peerConfig env).selfID := hid ▸ hdelivers.signed.2.1
    refine Iff.trans (b := w.peers.addressOf (ip.signerID env.sigs) = "") ?_ (by tauto)
    rw [hpeers, ← hid]
    by_cases htakes : w.peers.TakesUp (cfg.peerConfig env) s.nodeID s.addr
    · rw [Peers.addressOf_admitted w.now hself htakes, Peers.leaves_verified, haddr]
      exact eq_comm
    · rw [Peers.addressOf_refused w.now htakes]
      exact iff_of_true rfl (by_contra fun hknown => htakes (Peers.takesUp_of_known hknown))

open Trio

theorem forwarder_unrecorded_announce :
    ∃ w u, exec (next netEnv config) (new [] start) [.frame peerAddr udp announcePacket 0] = some w ∧
    next netEnv config w (.frame thirdAddr udp forwardedPacket 0) = some u ∧ w.peers.addressOf peerID = peerAddr ∧
    u.peers.addressOf peerID = peerAddr := by
  have hrun : ((exec (next netEnv config) (new [] start) [.frame peerAddr udp announcePacket 0]).bind fun w =>
      (next netEnv config w (.frame thirdAddr udp forwardedPacket 0)).map fun _ => w.peers.addressOf peerID) =
        some peerAddr := by
    decide +kernel
  have hannounce : netEnv.json.announce.unmarshal forwardedPacket.payload = some forwarded := by decide +kernel
  obtain ⟨w, hw, hrun⟩ := bind_eq_some_iff.mp hrun
  obtain ⟨u, hu, haddr⟩ := map_eq_some_iff.mp hrun
  have hnamed : ∀ r ∈ netEnv.net.resolve thirdAddr, r ≠ "" := by decide +kernel
  have hknown : w.peers.addressOf forwarded.destHash ≠ "" := ne_of_eq_of_ne haddr (by decide)
  exact ⟨w, u, hw, hu, haddr,
    (((forwarder_unrecorded hnamed hu).1 forwarded rfl hannounce (by decide)).mpr (.inl hknown)).trans haddr⟩

/-- The announce of a node that is new, passed on once, brings the address of the third node into the record. And the
    peer's discovery packet, routed through the third node, blanks the address that the peer was heard at. --/
theorem forwarder_recorded :
    (netEnv.json.announce.unmarshal forwardedPacket.payload = some forwarded ∧ forwarded.hopCount = 1 ∧
      forwarded.destHash = peerID ∧
      (new [] start).peers.addressOf peerID = "" ∧
        ∃ u, next netEnv config (new [] start) (.frame thirdAddr udp forwardedPacket 0) = some u ∧
        u.peers.addressOf peerID = thirdAddr) ∧
    ∃ w u, exec (next freshEnv config) (new [] start) [.frame peerAddr udp announcePacket 0] = some w ∧
      next freshEnv config w (.frame thirdAddr udp (routedPacket start) 0) = some u ∧
        w.peers.addressOf peerID = peerAddr ∧
      u.peers.addressOf peerID = "" := by
  constructor
  · refine ⟨by decide +kernel, rfl, rfl, rfl, map_eq_some_iff.mp (show Option.map _ _ = some thirdAddr from ?_)⟩
    decide +kernel
  · have hrun : ((exec (next freshEnv config) (new [] start) [.frame peerAddr udp announcePacket 0]).bind fun w =>
        (next freshEnv config w (.frame thirdAddr udp (routedPacket start) 0)).map fun u =>
          (w.peers.addressOf peerID, u.peers.addressOf peerID)) = some (peerAddr, "") := by decide +kernel
    obtain ⟨w, hw, hrun⟩ := bind_eq_some_iff.mp hrun
    obtain ⟨u, hu, haddrs⟩ := map_eq_some_iff.mp hrun
    obtain ⟨hbefore, hafter⟩ := Prod.mk.inj haddrs
    exact ⟨w, u, hw, hu, hbefore, hafter⟩

end Discovery
end SyncSwarm.Discovery
