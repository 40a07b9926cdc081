import SyncSwarm.Theorems.Discovery.Shell

/-! What a node does with a routed packet. -/

set_option linter.dupNamespace false

namespace SyncSwarm.Discovery
open Lib Protocol Option

/-- The types of packets that are handed on by hops. --/
def Routes (type : PacketType) : Prop := type = .routed ∨ type = .routedDiscovery

instance (type : PacketType) : Decidable (Routes type) := inferInstanceAs (Decidable (_ ∨ _))

namespace Discovery
variable {env : Env} {cfg : Config} {w : Discovery} {addr remoteAddr dest hop : String} {i srcIface : Interface}
  {p' pkt : SignedPacket}
  {nonce : UInt64} {m : Emit}

theorem observe_fresh {d : DedupSet} {now : Int} {key : String} (h : d.get? key = none) :
    (d.observe now key).1 = false := by
  rw [DedupSet.observe, h]
  rfl

theorem routeToward_eq (w : Discovery) (pkt : SignedPacket) {e : PathEntry}
    (he : w.paths.lookup pkt.destNode = some e) (hhop : e.nextHop ≠ "") (hiface : cfg.iface.isSome = true) :
    ∃ i, w.routeToward cfg pkt.destNode pkt = [.send i e.nextHop pkt] := by
  obtain ⟨i, hi⟩ := isSome_iff_exists.mp hiface
  rw [routeToward, he]
  simp only [if_neg hhop, addrIfaceFor, hi]
  cases w.addrIface.get? e.nextHop with
  | none => exact ⟨i, rfl⟩
  | some j => exact ⟨j, rfl⟩

theorem mem_routeToward (h : m ∈ w.routeToward cfg dest pkt) : ∃ i hop, m = .send i hop pkt := by
  rw [routeToward] at h
  split at h
  · cases h
  · split at h
    · cases h
    · obtain ⟨i, -, hm⟩ := map_eq_some_iff.mp (mem_toList.mp h)
      exact ⟨i, _, hm.symm⟩

def lowered (pkt : SignedPacket) : SignedPacket :=
  { pkt with payload := encodeRouted (routedHopLimit pkt.payload - 1) (routedInner pkt.payload) }

theorem mem_forwardRouted (h : .send i hop p' ∈ w.forwardRouted cfg pkt) :
    1 < routedHopLimit pkt.payload ∧ p' = lowered pkt := by
  rw [forwardRouted] at h
  split at h
  · cases h
  split at h
  · cases h
  next hlimit =>
  obtain ⟨j, hop', hm⟩ := mem_routeToward h
  exact ⟨UInt8.not_le.mp hlimit, (Emit.send.inj hm).2.2⟩

def marked (w : Discovery) (addr : String) (srcIface : Interface) (pkt : SignedPacket) : Discovery :=
  { w.rememberAddrIface addr srcIface with routedSeen := (w.routedSeen.observe w.now (hexString pkt.id.val)).2 }

theorem core_marked : (w.marked addr srcIface pkt).core = w.core := core_rememberAddrIface addr srcIface

theorem now_marked : (w.marked addr srcIface pkt).now = w.now := now_rememberAddrIface addr srcIface

theorem delivered_marked : (w.marked addr srcIface pkt).delivered = w.delivered :=
  congrArg Shell.delivered (shell_rememberAddrIface addr srcIface)

theorem receive_routes (hroutes : Routes pkt.type) (hresolve : env.net.resolve addr = some remoteAddr) :
    w.receive env cfg addr srcIface pkt nonce =
      if (w.routedSeen.observe w.now (hexString pkt.id.val)).1 = true then (w.marked addr srcIface pkt, [])
      else if pkt.destNode = cfg.selfID then
        if pkt.type = .routed then
          ({ w.marked addr srcIface pkt with
            delivered := w.delivered ++ [(routedInner pkt.payload, pkt.sourceNode)] }, [])
        else (unmarshalBinary (routedInner pkt.payload)).elim (w.marked addr srcIface pkt, [])
          fun ip => (w.marked addr srcIface pkt).deliverRoutedDiscovery env cfg ip remoteAddr srcIface
      else (w.marked addr srcIface pkt, (w.marked addr srcIface pkt).forwardRouted cfg pkt) := by
  have hshell := shell_rememberAddrIface (w := w) addr srcIface
  have hseen : (w.rememberAddrIface addr srcIface).routedSeen = w.routedSeen := congrArg Shell.routedSeen hshell
  have hdelivered : (w.rememberAddrIface addr srcIface).delivered = w.delivered := congrArg Shell.delivered hshell
  rw [receive, hresolve]
  rcases hroutes with htype | htype
  · simp only [htype, handleRouted, hseen, hdelivered, now_rememberAddrIface, marked, if_true]
  · have hne : ¬PacketType.routedDiscovery = .routed := by decide
    simp only [htype, handleRoutedDiscovery, hseen, now_rememberAddrIface, marked, if_neg hne]
    cases unmarshalBinary (routedInner pkt.payload) with
    | none | some ip => rfl

theorem receive_delivers {inner : Bytes} {limit : UInt8} (hresolve : env.net.resolve addr = some remoteAddr)
    (htype : pkt.type = .routed) (hdest : pkt.destNode = cfg.selfID)
    (hfresh : w.routedSeen.get? (hexString pkt.id.val) = none) (hpayload : pkt.payload = encodeRouted limit inner) :
    (w.receive env cfg addr srcIface pkt nonce).1.delivered = w.delivered ++ [(inner, pkt.sourceNode)] := by
  have hinner : routedInner pkt.payload = inner := by rw [hpayload]; rfl
  have hhands : w.shell.hands cfg pkt = [(inner, pkt.sourceNode)] := by
    rw [Shell.hands, if_pos ⟨htype, hdest, observe_fresh hfresh⟩, hinner]
  rw [← hhands]
  exact congrArg Shell.delivered (shell_receive hresolve)

theorem receive_forwards (srcIface : Interface) (nonce : UInt64) {inner : Bytes} {limit : UInt8} {e : PathEntry}
    (hresolve : env.net.resolve addr = some remoteAddr) (htype : pkt.type = .routed)
    (hdest : pkt.destNode ≠ cfg.selfID) (hfresh : w.routedSeen.get? (hexString pkt.id.val) = none)
    (hpayload : pkt.payload = encodeRouted limit inner) (htransport : w.isTransport = true) (hlimit : 1 < limit)
    (he : w.paths.lookup pkt.destNode = some e) (hhop : e.nextHop ≠ "") (hiface : cfg.iface.isSome = true) :
    ∃ v i, w.receive env cfg addr srcIface pkt nonce =
        (v, [.send i e.nextHop { pkt with payload := encodeRouted (limit - 1) inner }]) ∧ v.paths = w.paths := by
  have hmore : ¬limit ≤ 1 := UInt8.not_le.mpr hlimit
  have hread : routedHopLimit pkt.payload = limit := by rw [hpayload]; rfl
  have hinner : routedInner pkt.payload = inner := by rw [hpayload]; rfl
  have hpaths : (w.marked addr srcIface pkt).paths = w.paths := congrArg Core.paths (@core_marked w addr srcIface pkt)
  have hcan : (w.marked addr srcIface pkt).isTransport = true := by
    rw [isTransport, marked, capabilities_rememberAddrIface]
    exact htransport
  have hnew : ¬(w.routedSeen.observe w.now (hexString pkt.id.val)).1 = true := by
    rw [observe_fresh hfresh]
    exact Bool.false_ne_true
  obtain ⟨i, hi⟩ :=
    routeToward_eq (w.marked addr srcIface pkt) { pkt with payload := encodeRouted (limit - 1) inner }
      (hpaths ▸ he) hhop hiface
  refine ⟨w.marked addr srcIface pkt, i, ?_, hpaths⟩
  rw [receive_routes (.inl htype) hresolve, if_neg hnew, if_neg hdest, forwardRouted, hcan, if_neg Bool.noConfusion,
    hread, if_neg hmore,
    hinner]
  exact Prod.ext rfl hi

end Discovery
end SyncSwarm.Discovery
