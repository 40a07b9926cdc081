import SyncSwarm.Theorems.Discovery.Freshness
import SyncSwarm.Theorems.Discovery.Shell

/-! The interface on which an address is reached. -/

set_option linter.dupNamespace false

namespace SyncSwarm.Discovery
open Lib Protocol List Option

namespace Discovery
variable {env : Env} {cfg : Config} {w u : Discovery} {addr remoteAddr : String} {srcIface : Interface}
  {pkt : SignedPacket}

/-! ### What changes the interfaces -/

theorem get?_rememberAddrIface (hne : addr ≠ "") (i : Interface) :
    (w.rememberAddrIface addr i).addrIface.get? addr = some i := by
  rw [rememberAddrIface, if_neg hne, GoMap.get?_set, if_pos rfl]

theorem get?_rememberAddrIface_of_ne {a : String} (hne : a ≠ addr) (i : Interface) :
    (w.rememberAddrIface addr i).addrIface.get? a = w.addrIface.get? a := by
  rw [rememberAddrIface]
  split
  · rfl
  · rw [GoMap.get?_set, if_neg hne]

/-- Until a frame from the next hop comes over another interface. --/
def Over (env : Env) (hop : String) (srcIface : Interface) (_ : Discovery) : Action → Prop
  | .frame addr i _ _ => env.net.resolve addr = some hop → i = srcIface
  | _ => True

theorem addrIfaceFor_remember (hne : addr ≠ "") :
    (w.rememberAddrIface addr srcIface).addrIfaceFor cfg addr = srcIface := by
  rw [addrIfaceFor, get?_rememberAddrIface hne, some_or]

theorem addrIfaceFor_kept {hop : String} {a : Action} (hcanon : env.net.resolve hop = some hop)
    (hover : Over env hop srcIface w a) (hw : w.addrIfaceFor cfg hop = some srcIface)
    (hnext : next env cfg w a = some u) :
    u.addrIfaceFor cfg hop = some srcIface := by
  rcases frame_or a with ⟨addr, i, pkt, nonce, rfl⟩ | hframe
  · obtain rfl : (w.receive env cfg addr i pkt nonce).1 = u := Option.some.inj hnext
    cases hresolve : env.net.resolve addr with
    | none => rwa [receive, hresolve]
    | some remoteAddr =>
      rw [addrIfaceFor, addrIface_receive nonce hresolve]
      by_cases heq : hop = addr
      · have hi : i = srcIface := hover (heq ▸ hcanon)
        by_cases hblank : addr = ""
        · rwa [rememberAddrIface, if_pos hblank]
        · rw [heq, get?_rememberAddrIface hblank, hi, some_or]
      · rwa [get?_rememberAddrIface_of_ne heq]
  · rw [addrIfaceFor, addrIface_step hframe hnext]
    exact hw

end Discovery

/-! ### The paths that a frame teaches -/

theorem PathTable.lookup_of_stored {iter : GoMap.Iteration String PathEntry} {pt : PathTable} {dest D : String}
    {e e' : PathEntry} {writer writer' : Writer}
    (hstored : (pt.update iter dest e writer).1.stored = (D, writer') :: pt.stored)
    (h : (pt.update iter dest e writer).1.lookup D = some e') : e' = e := by
  rcases update_cases iter pt dest e writer with ⟨-, heq⟩ | ⟨-, heq | ⟨cur, -, heq⟩⟩
  · rw [heq] at hstored h
    rw [stored_store] at hstored
    have hD : dest = D := congrArg Prod.fst (List.cons.inj hstored).1
    rcases lookup_store h with ⟨-, he⟩ | ⟨hne, -⟩
    · exact he
    · exact absurd hD.symm hne
  · rw [heq] at hstored
    exact absurd hstored.symm (cons_ne_self _ _)
  · rw [heq] at hstored
    exact absurd hstored.symm (cons_ne_self _ _)

namespace Discovery
variable {env : Env} {cfg : Config} {w u : Discovery} {addr remoteAddr : String} {srcIface : Interface}
  {pkt : SignedPacket}

theorem nextHop_learned {c c' : Core} {now : Int} {dest : String} {writer : Writer} {e : PathEntry}
    (h : Handles env cfg now remoteAddr srcIface pkt c c')
    (hstored : c'.paths.stored = (dest, writer) :: c.paths.stored) (he : c'.paths.lookup dest = some e) :
    e.nextHop = remoteAddr := by
  have hkept : c'.paths ≠ c.paths := fun heq => cons_ne_self _ _ (hstored.symm.trans (congrArg PathTable.stored heq))
  cases h with
  | dropped | heard _ _ | gossiped _ _ _ | asked _ _ _ _ | contacts _ _ _ | discovered _ _ _ _ => exact absurd rfl hkept
  | replied _ _ _ => exact absurd (Core.paths_reply _ _ _ _) hkept
  | announced _ _ _ _ _ | routed _ _ _ _ | routedPeer _ _ _ _ _ _ _ => rw [PathTable.lookup_of_stored hstored he]; rfl
  | routedReply _ _ _ _ _ _ =>
    rw [Core.paths_reply] at hstored he
    rw [PathTable.lookup_of_stored hstored he]
    rfl

/-- What goes to the hop, along a path or a link, goes over the interface and is cut to its MTU. --/
structure RepliesOver (cfg : Config) (hop : String) (i : Interface) (w : Discovery) : Prop where
  route : ∀ D e, w.paths.lookup D = some e → e.nextHop = hop → ∀ p, w.routeToward cfg D p = [.send i hop p]
  mtuToward : ∀ D e, w.paths.lookup D = some e → e.nextHop = hop → w.mtuToward cfg D = i.mtu
  link : ∀ frame, w.linkSend cfg hop frame = some (i, hop, frame)
  mtuFor : w.mtuFor cfg hop = i.mtu

theorem repliesOver_iff {hop : String} (hne : hop ≠ "") :
    w.RepliesOver cfg hop srcIface ↔ w.addrIfaceFor cfg hop = some srcIface := by
  constructor
  · intro h
    obtain ⟨i, hi, heq⟩ := map_eq_some_iff.mp (h.link [])
    rwa [(Prod.mk.inj heq).1] at hi
  · intro hfound
    refine ⟨?_, ?_, fun frame => ?_, ?_⟩
    · rintro D e he rfl p
      rw [routeToward, he]
      simp only [if_neg hne, hfound, map_some, toList_some]
    · rintro D e he rfl
      rw [mtuToward, he]
      simp only [if_neg hne, hfound, mtuOf, map_some, getD_some]
    · rw [linkSend, hfound, map_some]
    · rw [mtuFor, hfound, mtuOf, map_some, getD_some]

/-- A path that is learned from a frame is used over the interface of the frame, and so are the links to its next
    hop, until a frame from the next hop comes over another interface, exactly when the frame gives its address as it
    resolves, or that address was already reached over the interface. --/
theorem replies_on_arrival (env : Env) (cfg : Config) {w u : Discovery} {addr : String} {srcIface : Interface}
    {pkt : SignedPacket} {nonce : UInt64} (hframe : next env cfg w (.frame addr srcIface pkt nonce) = some u)
    {dest : String} {writer : Writer} {e : PathEntry} (hlearned : u.paths.stored = (dest, writer) :: w.paths.stored)
    (he : u.paths.lookup dest = some e) (hcanon : env.net.resolve e.nextHop = some e.nextHop) (hne : e.nextHop ≠ "") :
    (∀ as t, Along (next env cfg) (Over env e.nextHop srcIface) u as → exec (next env cfg) u as = some t →
      t.RepliesOver cfg e.nextHop srcIface) ↔
    addr = e.nextHop ∨ w.addrIfaceFor cfg e.nextHop = some srcIface := by
  have hu : (w.receive env cfg addr srcIface pkt nonce).1 = u := Option.some.inj hframe
  have hresolve : env.net.resolve addr = some e.nextHop := by
    have hmoves := step_cases hframe
    generalize hc : u.core = c at hmoves
    have hpaths : u.paths = c.paths := congrArg Core.paths hc
    cases hmoves with
    | quiet | queued _ => exact absurd (hlearned.symm.trans (congrArg PathTable.stored hpaths)) (cons_ne_self _ _)
    | handled hresolve hhandles =>
      rw [hpaths] at hlearned he
      rw [hresolve, nextHop_learned hhandles hlearned he]
  have hstart : u.addrIfaceFor cfg e.nextHop = some srcIface ↔
      addr = e.nextHop ∨ w.addrIfaceFor cfg e.nextHop = some srcIface := by
    rw [addrIfaceFor, ← hu, addrIface_receive nonce hresolve]
    by_cases heq : addr = e.nextHop
    · rw [← heq] at hne ⊢
      exact iff_of_true (addrIfaceFor_remember hne) (.inl rfl)
    · rw [get?_rememberAddrIface_of_ne (Ne.symm heq), or_iff_right heq]
      rfl
  rw [← hstart]
  constructor
  · intro h
    exact (repliesOver_iff hne).mp (h [] u trivial rfl)
  · intro hfound as t hover hrun
    refine (repliesOver_iff hne).mpr ?_
    exact exec_keeps_along (fun _ _ _ hover hw hnext => addrIfaceFor_kept hcanon hover hw hnext) hfound hover hrun

end Discovery

/-! ### A bridge -/

namespace Trio

def bridge : Interface := ⟨"tcp0", .tcpClient, 65536⟩

/-- The node has dialed a bridge by its name, which resolves to the address of the third node. --/
def bridgeEnv : Env :=
  { freshEnv with
    net := { freshEnv.net with resolve := fun addr => some (if addr = "bridge:64512" then thirdAddr else addr) } }

end Trio

namespace Discovery
open Trio

theorem replies_on_arrival_bridge :
    ∃ u e, next bridgeEnv config (new [] start) (.frame thirdAddr bridge announcePacket 0) = some u ∧
    u.paths.lookup peerID = some e ∧ u.mtuToward config peerID = 65536 := by
  have hrun : ((next bridgeEnv config (new [] start) (.frame thirdAddr bridge announcePacket 0)).bind fun u =>
      (u.paths.lookup peerID).map fun e => (u.paths.stored, e.nextHop)) = some ([(peerID, .announced)], thirdAddr) := by
    decide +kernel
  obtain ⟨u, hu, hpath⟩ := bind_eq_some_iff.mp hrun
  obtain ⟨e, he, heq⟩ := map_eq_some_iff.mp hpath
  obtain ⟨hstored, hhop⟩ := Prod.mk.inj heq
  have hcanon : bridgeEnv.net.resolve e.nextHop = some e.nextHop := by
    rw [hhop]
    decide +kernel
  have hreplies := (replies_on_arrival bridgeEnv config hu hstored he hcanon (hhop ▸ by decide)).mpr (.inl hhop.symm)
  exact ⟨u, e, hu, he, (hreplies [] u trivial rfl).mtuToward peerID e he rfl⟩

/-- The announce comes over the bridge, and the path that it teaches goes over UDP. --/
theorem replies_elsewhere :
    ∃ u e, next bridgeEnv config (new [] start) (.frame "bridge:64512" bridge announcePacket 0) = some u ∧
    u.paths.stored = [(peerID, .announced)] ∧ u.paths.lookup peerID = some e ∧
      u.RepliesOver config e.nextHop udp := by
  have hrun : ((next bridgeEnv config (new [] start) (.frame "bridge:64512" bridge announcePacket 0)).bind fun u =>
      (u.paths.lookup peerID).map fun e => (u.paths.stored, decide (e.nextHop = ""), u.addrIface.get? e.nextHop)) =
        some ([(peerID, .announced)], false, none) := by decide +kernel
  obtain ⟨u, hu, hpath⟩ := bind_eq_some_iff.mp hrun
  obtain ⟨e, he, heq⟩ := map_eq_some_iff.mp hpath
  obtain ⟨hstored, heq⟩ := Prod.mk.inj heq
  obtain ⟨hblank, hnone⟩ := Prod.mk.inj heq
  refine ⟨u, e, hu, hstored, he, (repliesOver_iff (of_decide_eq_false hblank)).mpr ?_⟩
  rw [addrIfaceFor, hnone, none_or]
  rfl

end Discovery
end SyncSwarm.Discovery
