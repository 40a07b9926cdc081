import SyncSwarm.Theorems.Discovery.Windows
import SyncSwarm.Theorems.Discovery.Routed
import SyncSwarm.Theorems.Discovery.Keys

/-! The way of a routed packet. Every hop takes one off the limit in front of the inner bytes and
    sends the rest as it came. -/

set_option linter.dupNamespace false

namespace SyncSwarm.Discovery
open Lib Protocol List

namespace Discovery
variable {env : Env} {cfg : Config} {w u : Discovery} {addr remoteAddr dest hop origin : String}
  {i srcIface : Interface}
  {type : PacketType} {p p' pkt : SignedPacket} {nonce : UInt64} {m : Emit} {inner : Bytes} {hopLimit : UInt8}

/-! ### Chains of hops -/

/-- A node that is not the destination gets the first packet and sends the second. --/
def Forwards (p p' : SignedPacket) : Prop :=
  ∃ (env : Env) (cfg : Config) (w : Discovery) (addr : String) (srcIface : Interface) (nonce : UInt64)
    (i : Interface) (hop : String),
    p.destNode ≠ cfg.selfID ∧ .send i hop p' ∈ (w.receive env cfg addr srcIface p nonce).2

theorem Forwards.spec (hroutes : Routes p.type) (h : Forwards p p') :
    1 < routedHopLimit p.payload ∧ p' = lowered p := by
  obtain ⟨env, cfg, w, addr, srcIface, nonce, i, hop, hdest, h⟩ := h
  cases hresolve : env.net.resolve addr with
  | none =>
    rw [receive_unresolved hresolve] at h
    cases h
  | some remoteAddr =>
    rw [receive_routes hroutes hresolve, if_neg hdest] at h
    split at h
    · cases h
    · exact mem_forwardRouted h

/-- The packet as it was sent, except that less may be left of its limit. --/
structure Copy (p : SignedPacket) (inner : Bytes) (q : SignedPacket) : Prop where
  same : q = { p with payload := q.payload }
  limit : 1 ≤ routedHopLimit q.payload
  inner : routedInner q.payload = inner

variable {q : SignedPacket} {ps : List SignedPacket}

theorem Copy.type_eq (h : Copy p inner q) : q.type = p.type := by rw [h.same]

/-- The second packet has one hop less to go. --/
def Spends (q q' : SignedPacket) : Prop := (routedHopLimit q'.payload).toNat + 1 = (routedHopLimit q.payload).toNat

theorem Copy.forwards {q q' : SignedPacket} (hroutes : Routes p.type) (h : Copy p inner q) (hforwards : Forwards q q') :
    Copy p inner q' ∧ Spends q q' := by
  obtain ⟨hlimit, rfl⟩ := hforwards.spec (h.type_eq ▸ hroutes)
  have hlt : 1 < (routedHopLimit q.payload).toNat := UInt8.lt_iff_toNat_lt.mp hlimit
  have hsub : (routedHopLimit q.payload - 1).toNat = (routedHopLimit q.payload).toNat - 1 :=
    UInt8.toNat_sub_of_le _ _ (UInt8.le_of_lt hlimit)
  refine ⟨⟨?_, ?_, h.inner⟩, ?_⟩
  · conv_lhs => rw [lowered, h.same]
    rfl
  · refine UInt8.le_iff_toNat_le.mpr ?_
    show 1 ≤ (routedHopLimit q.payload - 1).toNat
    omega
  · show (routedHopLimit q.payload - 1).toNat + 1 = _
    omega

theorem Copy.chain (hroutes : Routes p.type) (h : Copy p inner q)
    (hchain : List.IsChain Forwards (q :: ps)) : List.IsChain Spends (q :: ps) ∧ ∀ q' ∈ q :: ps, Copy p inner q' := by
  induction ps generalizing q with
  | nil =>
    refine ⟨List.IsChain.singleton _, fun q' hq' => ?_⟩
    rw [mem_singleton.mp hq']
    exact h
  | cons q' ps ih =>
    obtain ⟨hforwards, hchain⟩ := isChain_cons_cons.mp hchain
    obtain ⟨hcopy, hspends⟩ := h.forwards hroutes hforwards
    obtain ⟨hspent, hcopies⟩ := ih hcopy hchain
    refine ⟨isChain_cons_cons.mpr ⟨hspends, hspent⟩, fun r hr => ?_⟩
    rcases mem_cons.mp hr with rfl | hr
    · exact h
    · exact hcopies r hr

theorem length_lt_of_spends (hchain : List.IsChain Spends (q :: ps))
    (hlimit : ∀ q' ∈ q :: ps, 1 ≤ routedHopLimit q'.payload) : ps.length < (routedHopLimit q.payload).toNat := by
  induction ps generalizing q with
  | nil => exact UInt8.le_iff_toNat_le.mp (hlimit q mem_cons_self)
  | cons q' ps ih =>
    obtain ⟨hspends, hchain⟩ := isChain_cons_cons.mp hchain
    have hlt := ih hchain fun r hr => hlimit r (mem_cons_of_mem q hr)
    rw [Spends] at hspends
    rw [length_cons]
    omega

/-! ### Windows -/

/-- The action brings a routed packet with the ID, which the node has not seen lately. --/
def takes (env : Env) (id : FixedBytes 32) (w : Discovery) : Action → Bool
  | .frame addr _ pkt _ =>
    (env.net.resolve addr).isSome && decide (Routes pkt.type) && decide (pkt.id = id) &&
      !(w.routedSeen.observe w.now (hexString id.val)).1
  | _ => false

theorem takes_new {id : FixedBytes 32} {a : Action} (h : takes env id w a = true) :
    routedKeyOf env a = some (hexString id.val) ∧ (w.routedSeen.observe w.now (hexString id.val)).1 = false := by
  cases a with
  | frame addr srcIface pkt nonce =>
    simp only [takes, Bool.and_eq_true, decide_eq_true_eq, Bool.not_eq_true'] at h
    obtain ⟨⟨⟨hresolve, hroutes⟩, rfl⟩, hnew⟩ := h
    refine ⟨?_, hnew⟩
    rw [routedKeyOf, if_pos hresolve, routedKey]
    rcases hroutes with htype | htype
    · rw [htype]
    · rw [htype]
  | _ => cases h

theorem receive_repeat (hroutes : Routes pkt.type) (h : takes env pkt.id w (.frame addr srcIface pkt nonce) = false) :
    ∃ addrIface, w.receive env cfg addr srcIface pkt nonce = ({ w with addrIface }, []) := by
  cases hresolve : env.net.resolve addr with
  | none => exact ⟨w.addrIface, receive_unresolved hresolve⟩
  | some remoteAddr =>
    have hseen : (w.routedSeen.observe w.now (hexString pkt.id.val)).1 = true := by
      simpa [takes, hresolve, hroutes] using h
    rw [receive_routes hroutes hresolve, if_pos hseen, marked, DedupSet.observe_seen hseen, rememberAddrIface]
    split
    · exact ⟨w.addrIface, rfl⟩
    · exact ⟨_, rfl⟩

/-- Where the packet is for the node, and taken, the node gets these bytes. --/
def HandsOver (inner : Bytes) (q : SignedPacket) : Prop :=
  ∀ (env : Env) (cfg : Config) (w : Discovery) (addr remoteAddr : String) (srcIface : Interface) (nonce : UInt64),
    q.destNode = cfg.selfID → env.net.resolve addr = some remoteAddr →
      takes env q.id w (.frame addr srcIface q nonce) = true →
    ∃ v : Discovery, v.core = w.core ∧ v.delivered = w.delivered ∧ w.receive env cfg addr srcIface q nonce =
      if q.type = .routed then ({ v with delivered := v.delivered ++ [(inner, q.sourceNode)] }, [])
      else (unmarshalBinary inner).elim (v, []) fun ip => v.deliverRoutedDiscovery env cfg ip remoteAddr srcIface

theorem Copy.handsOver (hroutes : Routes p.type) (h : Copy p inner q) : HandsOver inner q := by
  intro env cfg w addr remoteAddr srcIface nonce hdest hresolve htakes
  have hnew : ¬(w.routedSeen.observe w.now (hexString q.id.val)).1 = true := by
    rw [(takes_new htakes).2]
    exact Bool.false_ne_true
  refine ⟨w.marked addr srcIface q, core_marked, delivered_marked, ?_⟩
  rw [receive_routes (h.type_eq ▸ hroutes) hresolve, if_neg hnew, if_pos hdest, h.inner, delivered_marked]

/-- A routed packet goes at most so many hops as its limit says, whatever the nodes that it comes to have in their
    tables. Each node takes it once in a window. Where it is for a node, the inner bytes are those that were sent. --/
theorem routed_terminates (hroutes : Routes type) (hlimit : 1 ≤ hopLimit)
    (hsent : .send i hop p ∈ w.sendRoutedAs env cfg type dest inner hopLimit) :
    (∀ ps, List.IsChain Forwards (p :: ps) →
      List.IsChain Spends (p :: ps) ∧ ps.length ≤ hopLimit.toNat - 1 ∧ ∀ q ∈ p :: ps, q.destNode = dest ∧ q.id = p.id ∧
        HandsOver inner q) ∧
    ∀ (env : Env) (cfg : Config) (v : Discovery),
      (∀ as u, exec (next env cfg) v as = some u →
        Apart (outputs (next env cfg) (fun v a => if takes env p.id v a = true then [v.now] else []) v as)) ∧
      ∀ q addr srcIface nonce, Routes q.type → q.id = p.id → takes env p.id v (.frame addr srcIface q nonce) = false →
        ∃ addrIface, v.receive env cfg addr srcIface q nonce = ({ v with addrIface }, []) := by
  have hne : hopLimit ≠ 0 := by
    rintro rfl
    exact absurd hlimit (by decide)
  obtain ⟨j, hop', heq⟩ := mem_routeToward hsent
  have hp : p = w.newPacket env cfg type (encodeRouted hopLimit inner) "" dest := by
    rw [(Emit.send.inj heq).2.2, if_neg hne]
  have hpayload : p.payload = encodeRouted hopLimit inner := congrArg (fun q : SignedPacket => q.payload) hp
  have htype : Routes p.type := by
    rw [hp]
    exact hroutes
  have hcopy : Copy p inner p := ⟨rfl, by rw [hpayload]; exact hlimit, by rw [hpayload]; rfl⟩
  refine ⟨fun ps hchain => ?_, fun env cfg v => ⟨fun as u hrun => ?_, fun q addr srcIface nonce hq hid hnot => ?_⟩⟩
  · obtain ⟨hspends, hcopies⟩ := hcopy.chain htype hchain
    have hlt := length_lt_of_spends hspends fun q hq => (hcopies q hq).limit
    rw [hpayload] at hlt
    refine ⟨hspends, Nat.le_sub_one_of_lt hlt, fun q hq => ⟨?_, ?_, (hcopies q hq).handsOver htype⟩⟩
    · rw [(hcopies q hq).same, hp]
      rfl
    · rw [(hcopies q hq).same]
  · exact apart_of_new (hexString p.id.val) (fun w a u hnext => (seen_step hnext).2) (fun w a => takes_new) hrun
  · rw [← hid] at hnot
    exact receive_repeat hq hnot

end Discovery

namespace Trio

def hopEnv : Env :=
  envOf []
    [([2, 7] ++ startText,
      beBytes 32 0x9790d366545760ab28deb76165069015773bdfd6ef99436e36bd3e222b8022b7)]
    noJson

def transport (hop : String) : Discovery :=
  { Discovery.new ["relay"] start with
    paths := (PathTable.new.update hopEnv.pathIter peerID ⟨"udp0", hop, 1, start, start, none⟩ .announced).1 }

theorem lookup_transport (hop : String) :
    (transport hop).paths.lookup peerID = some ⟨"udp0", hop, 1, start, start, none⟩ := rfl

def sent : SignedPacket := (transport thirdAddr).newPacket hopEnv config .routed (encodeRouted 2 [7]) "" peerID

end Trio

namespace Discovery
open Trio

theorem routed_terminates_two :
    ∃ i p', .send i thirdAddr sent ∈ (transport thirdAddr).sendRoutedAs hopEnv config .routed peerID [7] 2 ∧
    Forwards sent p' ∧ Spends sent p' ∧ ∀ p'', ¬Forwards p' p'' := by
  have hiface : config.iface.isSome = true := rfl
  obtain ⟨i, hi⟩ := routeToward_eq (transport thirdAddr) sent (lookup_transport thirdAddr) (by decide) hiface
  have hsent : .send i thirdAddr sent ∈ (transport thirdAddr).sendRoutedAs hopEnv config .routed peerID [7] 2 := by
    show _ ∈ (transport thirdAddr).routeToward config sent.destNode sent
    rw [hi]
    exact mem_singleton_self _
  -- The third node is a transport, too.
  let third : Config := { config with selfID := thirdID }
  have hthird : third.iface.isSome = true := rfl
  have hresolve : hopEnv.net.resolve thirdAddr = some thirdAddr := rfl
  obtain ⟨v, j, hreceive, -⟩ :=
    receive_forwards udp 0 hresolve (rfl : sent.type = .routed) (show sent.destNode ≠ third.selfID by decide)
    rfl (show sent.payload = encodeRouted 2 [7] from rfl)
      (by decide : (transport peerAddr).isTransport = true) (by decide)
    (lookup_transport peerAddr) (by decide) hthird
  have hforwards : Forwards sent { sent with payload := encodeRouted 1 [7] } :=
    ⟨hopEnv, third, transport peerAddr, thirdAddr, udp, 0, j, peerAddr, by decide, hreceive ▸ mem_singleton_self _⟩
  have hends := (routed_terminates (.inl rfl) (by decide) hsent).1
  have hone := hends [_] (isChain_cons_cons.mpr ⟨hforwards, .singleton _⟩)
  refine ⟨i, _, hsent, hforwards, (isChain_cons_cons.mp hone.1).1, fun p'' hmore => ?_⟩
  have htwo := hends [_, p''] (isChain_cons_cons.mpr ⟨hforwards, isChain_cons_cons.mpr ⟨hmore, .singleton _⟩⟩)
  exact absurd htwo.2.1 (show ¬2 ≤ UInt8.toNat 2 - 1 by decide)

end Discovery
end SyncSwarm.Discovery
