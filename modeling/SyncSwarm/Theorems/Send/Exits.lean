import SyncSwarm.Theorems.Routing.Diversity
import SyncSwarm.Theorems.Send.FailClosed

/-! Where paths leave the relays: a destination that advertises reservation relays is entered through one of them. -/

namespace SyncSwarm.Transfer
open Lib Protocol Fragment Routing List
open Discovery (Node Net)

namespace Sender
variable {s : Sender} {m : Moment} {nodes : List Node} {dest : Node} {id : TransferID} {sc : Scheme} {ackToken : Bytes}
  {fc : ForwardCtx}

theorem newForwardCtx_exitNear (h : s.newForwardCtx m dest nodes id sc ackToken = .ok fc) :
    fc.exitNear = dest.relayIDs ∧
    (dest.relayIDs ≠ [] → ∃ r ∈ s.relayPeers m.excommunicated nodes dest.id, r.id ∈ dest.relayIDs) := by
  simp only [newForwardCtx] at h
  split at h
  · cases h
  · split at h
    · cases h
    next hnone =>
      split at h
      · cases h
      · cases h
        refine ⟨rfl, fun hne => ?_⟩
        have hpick : (pickReservationRelay (s.relayPeers m.excommunicated nodes dest.id) dest.relayIDs).isSome := by
          by_contra hpick
          exact hnone ⟨length_pos_iff.mpr hne, Option.not_isSome_iff_eq_none.mp hpick ▸ rfl⟩
        obtain ⟨r, hr⟩ := Option.isSome_iff_exists.mp hpick
        exact ⟨r, mem_of_find?_eq_some hr, by simpa using find?_some hr⟩

/-- A copy of the piece, on a path whose last relay is one of those that the destination advertises. --/
def Exits (s : Sender) (m : Moment) (dest : Node) (fc : ForwardCtx) (piece : Fragment) (e : Emission) : Prop :=
  ∃ copyIdx picked exit first hops blob, exit.id ∈ dest.relayIDs ∧
    fc.path s piece copyIdx = .ok (pathOf (picked ++ [exit]) (s.destPeer dest)) ∧
    (pathOf (picked ++ [exit]) (s.destPeer dest)).head? = some first ∧
    s.toOnionHops (pathOf (picked ++ [exit]) (s.destPeer dest)) = .ok hops ∧
    s.hybrid.buildOnion (m.draw piece copyIdx) hops (fc.inner s m piece) = .ok blob ∧
      e.Hands first.nodeID first.address blob

theorem ForwardCtx.Copies.exits {piece : Fragment} {e : Emission} (he : fc.Copies s m piece e)
    (hfc : s.newForwardCtx m dest nodes id sc ackToken = .ok fc)
    (hactive : ∀ n ∈ nodes, n.id ≠ dest.id → n.active = true) (hne : dest.relayIDs ≠ []) :
    s.Exits m dest fc piece e := by
  obtain ⟨-, -, htoward⟩ := newForwardCtx_ok hfc
  obtain ⟨hexit, hnear⟩ := newForwardCtx_exitNear hfc
  obtain ⟨copyIdx, first, blob, honion, hhands⟩ := he
  obtain ⟨hops, onionHops, hpath, hkeys, hblob, rfl⟩ := ForwardCtx.onion_ok honion
  obtain ⟨r, hr, hrid⟩ := hnear hne
  obtain ⟨n, -, hpeer, -, hother⟩ := mem_relayPeers hr
  have heligible : r ∈ eligible fc.destPeer fc.relays := by
    rw [htoward.destPeer, htoward.relays]
    exact mem_eligible.mpr ⟨hr, usable_relayPeers hactive hr, hpeer ▸ hother⟩
  obtain ⟨picked, exit, rfl, hid⟩ := buildPathTiered_exit hpath htoward.hops_pos ⟨r, heligible, hexit ▸ hrid⟩
  rw [htoward.destPeer] at hpath hkeys hhands
  refine ⟨copyIdx, picked, exit, _, onionHops, blob, hexit ▸ hid, hpath, ?_, hkeys, hblob, hhands⟩
  cases picked with
  | nil | cons first picked => rfl

end Sender

/-- A path has as many relays as there are to be or as may be used, none of them twice, and then the destination; the
    last relay is near the destination if any is that may be used. So whatever is sent to a destination that
    advertises reservation relays, over nodes that are active apart from the destination itself, exits through one of
    them. --/
theorem paths_exit_near {net : Net} {rng : Rng} {dest : Peer} {relays : List Peer} {opt : PathOptions}
    {hopCount : Int} (hids : (relays.map Peer.id).Nodup) (hid : dest.id ≠ "") (hkey : 0 < dest.pubKey.length)
    (hcount : 1 ≤ hopCount) (hsome : eligible dest relays ≠ []) :
    (∃ picked, buildPathTiered net rng dest relays hopCount opt = .ok (pathOf picked dest) ∧
      WellFormed dest relays hopCount opt.exitNear picked) ∧
    ∀ (s : Sender) (m : Moment) (nodes : List Node) (dest : Node) (id : TransferID) (sc : Scheme) (ackToken : Bytes)
      (fc : Sender.ForwardCtx) (frag : Fragment) (answers : Nat → Bool),
      (∀ n ∈ nodes, n.id ≠ dest.id → n.active = true) →
      s.newForwardCtx m dest nodes id sc ackToken = .ok fc → dest.relayIDs ≠ [] →
      ∀ e ∈ ((fc.sendFragment s m frag).run answers).done, ∃ piece ∈ fragmentPieces frag s.subChunkSize,
        s.Exits m dest fc piece e := by
  refine ⟨buildPathTiered_wellFormed hids hid hkey hcount hsome,
    fun s m nodes dest id sc ackToken fc frag answers hactive hfc hne e he => ?_⟩
  obtain ⟨piece, hpiece, hcopies⟩ := Sender.ForwardCtx.only_sendFragment answers (fun _ => trivial) e he
  exact ⟨piece, hpiece, hcopies.exits hfc hactive hne⟩

open Routing.Sample in
theorem paths_exit_near_three : ∃ picked last,
    buildPathTiered hosts unshuffled (relay "d" "D") (three "A") 2 (toward ["x"]) =
      .ok (pathOf picked (relay "d" "D")) ∧
      picked.length = 2 ∧ picked.getLast? = some last ∧ last.id = "x" := by
  obtain ⟨⟨picked, hpath, hformed⟩, -⟩ := @paths_exit_near hosts unshuffled (relay "d" "D") (three "A") (toward ["x"]) 2
    (by decide +kernel) (by decide) (by decide) (by decide) (by decide +kernel)
  have hlen : picked.length = 2 := hformed.length
  obtain ⟨last, hlast, hid⟩ := hformed.exit (by decide +kernel)
  exact ⟨picked, last, hpath, hlen, hlast, mem_singleton.mp hid⟩

end SyncSwarm.Transfer
