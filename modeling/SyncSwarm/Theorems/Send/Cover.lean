import SyncSwarm.Theorems.Send.Exits
import SyncSwarm.Theorems.Send.Sizes

/-! Cover traffic: what a decoy and a piece of a transfer look like to the node that they are handed to, which sees
    how long the blob is. -/

namespace SyncSwarm.Transfer
open Lib Protocol Fragment Encryption Routing List
open Discovery (Node)

namespace Sender
variable {s : Sender} {m : Moment} {nodes : List Node} {dest : Node} {fc : ForwardCtx}

/-- The nodes that are known have different IDs, with addresses and IDs of one length, and can be sealed to. --/
structure Alike (s : Sender) (nodes : List Node) (dest : Node) : Prop where
  active : ∀ n ∈ nodes, n.active = true
  ids : (nodes.map Node.id).Nodup
  named : ∀ n ∈ nodes, n.id ≠ ""
  addresses : ∀ n ∈ nodes, (strBytes (s.peerDialAddr n)).length = (strBytes (s.peerDialAddr dest)).length
  lengths : ∀ n ∈ nodes, (strBytes n.id).length = (strBytes dest.id).length
  sealable : ∀ n ∈ nodes, 0 < n.pubKey.length → s.Sealable n.pubKey

/-! ### Paths -/

theorem nodup_relayPeers {excommunicated : String → Bool} {excludeID : String} (hids : (nodes.map Node.id).Nodup) :
    ((s.relayPeers excommunicated nodes excludeID).map Peer.id).Nodup := by
  rw [relayPeers, map_map]
  exact (filter_sublist.map Node.id).nodup hids

theorem length_others {relays : List Peer} {peer : Peer} (hids : (relays.map Peer.id).Nodup) (hpeer : peer ∈ relays) :
    (relays.filter (·.id ≠ peer.id)).length = relays.length - 1 := by
  have hmap : (relays.filter (·.id ≠ peer.id)).map Peer.id = (relays.map Peer.id).erase peer.id := by
    rw [hids.erase_eq_filter, filter_map]
    congr 1
    exact filter_congr fun r _ => Bool.eq_iff_iff.mpr (by simp)
  have hlen := congrArg List.length hmap
  rwa [length_map, length_erase_of_mem (mem_map_of_mem hpeer), length_map] at hlen

/-- Whichever node is left out, all relays but one are there. --/
theorem length_relayPeers_le (hids : (nodes.map Node.id).Nodup) (excommunicated : String → Bool)
    (selfID destID : String) :
    (s.relayPeers excommunicated nodes selfID).length ≤ (s.relayPeers excommunicated nodes destID).length + 1 := by
  simp only [relayPeers, length_map, ← countP_eq_length_filter, Bool.and_assoc]
  generalize hQ :
    (fun n : Node => decide (0 < n.pubKey.length) && (hasCapability n.capabilities "relay" && !excommunicated n.id)) = Q
  simp only [funext_iff] at hQ
  simp only [hQ]
  have hsplit := @length_eq_countP_add_countP _ (fun n : Node => decide (n.id ≠ destID)) (nodes.filter Q)
  rw [countP_filter, countP_filter, ← countP_eq_length_filter] at hsplit
  have hself : countP (fun n => decide (n.id ≠ selfID) && Q n) nodes ≤ countP Q nodes :=
    countP_mono_left fun n _ h => (Bool.and_eq_true_iff.mp h).2
  have hdest : countP (fun n => (decide ¬decide (n.id ≠ destID) = true) && Q n) nodes ≤ 1 := by
    have hone := nodup_iff_count_le_one.mp hids destID
    rw [count, countP_map] at hone
    refine (countP_mono_left fun n _ h => ?_).trans hone
    simpa using (Bool.and_eq_true_iff.mp h).1
  omega

/-- A decoy has as many layers as hops are configured, or as there are relays. --/
theorem coverPath_eq {relays : List Peer} {peer : Peer} (husable : ∀ r ∈ relays, r.usable = true)
    (hids : (relays.map Peer.id).Nodup) (hpeer : peer ∈ relays) (hne : peer.id ≠ "") (hcount : 1 ≤ s.hopCount)
    (hmany : 2 ≤ relays.length) :
    ∃ picked, s.coverPath relays peer = pathOf picked peer ∧ (picked.length : Int) + 1 = min s.hopCount relays.length ∧
      ∀ r ∈ picked, r ∈ relays := by
  have hothers : eligible peer (relays.filter (·.id ≠ peer.id)) = relays.filter (·.id ≠ peer.id) := by
    refine filter_eq_self.mpr fun r hr => ?_
    obtain ⟨hmem, hother⟩ := mem_filter.mp hr
    simp [husable r hmem, of_decide_eq_true hother]
  have hlen := length_others hids hpeer
  have hkey : ¬(peer.id = "" ∨ peer.pubKey.length = 0) := by
    have := husable peer hpeer
    simp only [Peer.usable, Bool.and_eq_true, decide_eq_true_eq] at this
    exact not_or.mpr ⟨hne, this.2.ne'⟩
  have hpath : buildPath s.net peer (relays.filter (·.id ≠ peer.id)) (s.hopCount - 1) =
      .ok (pathOf (selectDiverse s.net (sorted (relays.filter (·.id ≠ peer.id))) (min (s.hopCount - 1).toNat
        (relays.filter (·.id ≠ peer.id)).length) peer.address) peer) := by
    rw [buildPath, candidates_eq (by omega), if_neg hkey, hothers]
    · rfl
    · intro _ hnil
      rw [hothers] at hnil
      rw [hnil, length_nil] at hlen
      omega
  refine ⟨_, by rw [coverPath, hpath]; rfl, ?_, fun r hr => ?_⟩
  · have hnodup :=
      @nodup_sorted_eligible peer (relays.filter (·.id ≠ peer.id)) ((filter_sublist.map Peer.id).nodup hids)
    rw [hothers] at hnodup
    rw [length_selectDiverse_eq hnodup, (perm_sorted _).length_eq]
    omega
  · exact (mem_filter.mp ((perm_sorted _).subset (selectDiverse_subset hr))).1

/-! ### Decoys -/

theorem dvd_buildDecoyInner (h : 0 < s.padCell) (d : Decoy) : s.padCell.toNat ∣ (s.buildDecoyInner d).length := by
  rw [buildDecoyInner, ← marshaledLen]
  exact dvd_padPacket rfl h

theorem dvd_inner (h : 0 < s.padCell) (piece : Fragment) : s.padCell.toNat ∣ (fc.inner s m piece).length := by
  rw [ForwardCtx.inner, buildInnerFragment, ← marshaledLen]
  exact dvd_padPacket rfl h

theorem Alike.names (h : s.Alike nodes dest) {excommunicated : String → Bool} {excludeID : String}
    {picked : List Peer} {last : Peer} (hpicked : ∀ r ∈ picked, r ∈ s.relayPeers excommunicated nodes excludeID)
    (hlast : last ∈ s.relayPeers excommunicated nodes excludeID ∨ last = s.destPeer dest) :
    ∀ hop ∈ pathOf picked last, (strBytes hop.address).length = (strBytes (s.peerDialAddr dest)).length ∧
      (strBytes hop.nodeID).length = (strBytes dest.id).length := by
  have hrelay : ∀ r ∈ s.relayPeers excommunicated nodes excludeID, (strBytes r.address).length =
    (strBytes (s.peerDialAddr dest)).length ∧
      (strBytes r.id).length = (strBytes dest.id).length := by
    intro r hr
    obtain ⟨n, hn, rfl, -⟩ := mem_relayPeers hr
    exact ⟨h.addresses n hn, h.lengths n hn⟩
  intro hop hhop
  rcases mem_append.mp hhop with hhop | hhop
  · obtain ⟨r, hr, rfl⟩ := mem_map.mp hhop
    exact hrelay r (hpicked r hr)
  · rw [mem_singleton.mp hhop]
    rcases hlast with hlast | rfl
    · exact hrelay last hlast
    · exact ⟨rfl, rfl⟩

theorem keys_of_newForwardCtx {id : TransferID} {sc : Scheme} {ackToken : Bytes}
    (h : s.newForwardCtx m dest nodes id sc ackToken = .ok fc) : ¬(s.nodePriv.isNone ∨ dest.pubKey.length = 0) := by
  simp only [newForwardCtx] at h
  split at h
  · cases h
  next hkeys => exact hkeys

/-- Every hop of a path over relays has a key, and can be sealed to. --/
theorem Alike.sealable_relays (h : s.Alike nodes dest) {excommunicated : String → Bool} {excludeID : String} {r : Peer}
    (hr : r ∈ s.relayPeers excommunicated nodes excludeID) : s.Sealable r.pubKey := by
  have hkey := usable_relayPeers (fun n hn _ => h.active n hn) hr
  obtain ⟨n, hn, rfl, -⟩ := mem_relayPeers hr
  simp only [Peer.usable, Bool.and_eq_true, decide_eq_true_eq] at hkey
  exact h.sealable n hn hkey.2

/-- The length of an onion with so many layers, around so many bytes, when all names are as long
    as those of the node. --/
def onionLength (s : Sender) (dest : Node) (layers inner : Nat) : Nat :=
  inner + (layers * 73 + (layers - 1) * ((strBytes (s.peerDialAddr dest)).length + (strBytes dest.id).length))

theorem cover_eq (hH : s.hybrid.Sized) (hnodes : s.Alike nodes dest) (hpriv : ¬s.nodePriv.isNone)
    (hcount : 1 ≤ s.hopCount) (hmany : 2 ≤ (s.relayPeers m.excommunicated nodes s.selfID).length) (d : Decoy) :
    ∃ first rest blob, s.cover (s.relayPeers m.excommunicated nodes s.selfID) d = some (first :: rest, blob) ∧
      ((first :: rest).length : Int) = min s.hopCount (s.relayPeers m.excommunicated nodes s.selfID).length ∧
      blob.length = s.onionLength dest (first :: rest).length (s.buildDecoyInner d).length := by
  generalize hrelays : s.relayPeers m.excommunicated nodes s.selfID = relays at hmany ⊢
  have hlt : d.index % relays.length < relays.length := Nat.mod_lt _ (by omega)
  have hpeer : relays[d.index % relays.length] ∈ relays := getElem_mem hlt
  generalize hchosen : relays[d.index % relays.length] = peer at hpeer
  have hne : peer.id ≠ "" := by
    obtain ⟨n, hn, rfl, -⟩ := mem_relayPeers (hrelays ▸ hpeer)
    exact hnodes.named n hn
  obtain ⟨picked, hpath, hlen, hpicked⟩ :=
    coverPath_eq (s := s) (fun r hr => usable_relayPeers (fun n hn _ => hnodes.active n hn) (hrelays ▸ hr))
    (hrelays ▸ nodup_relayPeers hnodes.ids) hpeer hne hcount hmany
  have hsealable : ∀ hop ∈ pathOf picked peer, s.Sealable hop.pubKey := by
    intro hop hhop
    rcases mem_append.mp hhop with hhop | hhop
    · obtain ⟨r, hr, rfl⟩ := mem_map.mp hhop
      exact hnodes.sealable_relays (hrelays ▸ hpicked r hr)
    · rw [mem_singleton.mp hhop]
      exact hnodes.sealable_relays (hrelays ▸ hpeer)
  have hpathLen : (pathOf picked peer).length = picked.length + 1 := by simp [pathOf]
  obtain ⟨first, rest, hfirst⟩ :=
    exists_cons_of_ne_nil (length_pos_iff.mp (show 0 < (pathOf picked peer).length by omega))
  obtain ⟨hops, blob, hhops, hblob⟩ :=
    exists_onion d.draw (s.buildDecoyInner d) (by rw [hfirst]; exact cons_ne_nil _ _) hsealable
  refine ⟨first, rest, blob, ?_, ?_, ?_⟩
  · rw [cover, if_neg (not_or.mpr ⟨hpriv, by omega⟩), getElem?_eq_getElem hlt, hchosen, ← hfirst]
    simp only [Option.bind_some, hpath, hhops]
    show (Except.toOption (s.hybrid.buildOnion d.draw hops (s.buildDecoyInner d))).map _ = _
    rw [hblob]
    rfl
  · rw [← hfirst, hpathLen]
    exact hlen
  · rw [length_onion hH hhops hblob, ← hfirst,
      layersOf_eq _ _ (hnodes.names (fun r hr => hrelays ▸ hpicked r hr) (.inl (hrelays ▸ hpeer))), onionLength]

/-- A piece of the send has a layer for each of its relays, and one for the destination. --/
theorem path_eq {id : TransferID} {sc : Scheme} {ackToken : Bytes} (hnodes : s.Alike nodes dest) (hdest : dest ∈ nodes)
    (hfc : s.newForwardCtx m dest nodes id sc ackToken = .ok fc)
    (hmany : fc.hops + 1 ≤ (s.relayPeers m.excommunicated nodes s.selfID).length) (piece : Fragment) (copyIdx : Nat) :
    ∃ picked, fc.path s piece copyIdx = .ok (pathOf picked (s.destPeer dest)) ∧ (picked.length : Int) = fc.hops ∧
      ∀ r ∈ picked, r ∈ s.relayPeers m.excommunicated nodes dest.id := by
  have htoward := (newForwardCtx_ok hfc).2.2
  have hpos := htoward.hops_pos
  have heligible : eligible fc.destPeer fc.relays = fc.relays := by
    rw [htoward.destPeer, htoward.relays, eligible_relayPeers]
    exact filter_eq_self.mpr fun r hr => usable_relayPeers (fun n hn _ => hnodes.active n hn) hr
  have hlen : fc.hops ≤ fc.relays.length := by
    have := length_relayPeers_le (s := s) hnodes.ids m.excommunicated s.selfID dest.id
    rw [htoward.relays]
    omega
  have hids : (fc.relays.map Peer.id).Nodup := htoward.relays ▸ nodup_relayPeers hnodes.ids
  refine ⟨planned s.net s.rng fc.destPeer fc.relays fc.hops ⟨fc.seed piece copyIdx, s.seedHosts, fc.exitNear⟩, ?_,
    ?_, fun r hr => ?_⟩
  · rw [ForwardCtx.path, buildPathTiered_eq (by omega) ?_, if_neg, ← htoward.destPeer]
    · rw [htoward.destPeer]
      exact not_or.mpr ⟨hnodes.named dest hdest, (not_or.mp (keys_of_newForwardCtx hfc)).2⟩
    · intro _ hnil
      rw [heligible] at hnil
      rw [hnil, length_nil] at hlen
      omega
  · rw [length_planned hids, heligible]
    omega
  · exact htoward.relays ▸ heligible ▸ mem_planned hr

/-- A decoy goes out that looks like the pieces of the send: with as many layers, and, for as many
    cells, as many bytes. --/
def Passes (s : Sender) (m : Moment) (nodes : List Node) (fc : ForwardCtx) (d : Decoy) : Prop :=
  ∃ first rest blob, s.cover (s.relayPeers m.excommunicated nodes s.selfID) d = some (first :: rest, blob) ∧
    s.sendCover m.excommunicated nodes d = s.sendRelayHop first.nodeID first.address blob ∧
    ∀ piece copyIdx hop real, fc.onion s m piece (fc.inner s m piece) copyIdx = .ok (hop, real) →
      ∃ path, fc.path s piece copyIdx = .ok path ∧ (first :: rest).length = path.length ∧
        ((s.buildDecoyInner d).length / s.padCell.toNat = (fc.inner s m piece).length / s.padCell.toNat →
          blob.length = real.length)

/-- Exactly then a decoy passes for a piece of a send: with as many hops configured, or as many relays when more are
    configured, as the piece has layers. --/
theorem decoys_alike {id : TransferID} {sc : Scheme} {ackToken : Bytes} (hpad : 0 < s.padCell) (hH : s.hybrid.Sized)
    (hnodes : s.Alike nodes dest) (hdest : dest ∈ nodes) (hfc : s.newForwardCtx m dest nodes id sc ackToken = .ok fc)
    (hmany : fc.hops + 1 ≤ (s.relayPeers m.excommunicated nodes s.selfID).length) (d : Decoy) :
    s.Passes m nodes fc d ↔
      1 ≤ s.hopCount ∧ min s.hopCount (s.relayPeers m.excommunicated nodes s.selfID).length = fc.hops + 1 := by
  have htoward := (newForwardCtx_ok hfc).2.2
  have hpos := htoward.hops_pos
  obtain ⟨hpriv, hkey⟩ := not_or.mp (keys_of_newForwardCtx hfc)
  constructor
  · rintro ⟨first, rest, blob, hcover, -, hreal⟩
    have hcount : 1 ≤ s.hopCount := by
      by_contra hless
      rw [cover, if_pos (.inr (by omega))] at hcover
      cases hcover
    refine ⟨hcount, ?_⟩
    obtain ⟨first', rest', blob', hcover', hlen, -⟩ := cover_eq (m := m) hH hnodes hpriv hcount (by omega) d
    cases hcover.symm.trans hcover'
    -- Any piece can be sent, and the decoy has as many layers as it.
    obtain ⟨picked, hpath, hpicked, hmem⟩ := path_eq hnodes hdest hfc hmany (Largest.fragment 0) 0
    have hsealable : ∀ hop ∈ pathOf picked (s.destPeer dest), s.Sealable hop.pubKey := by
      intro hop hhop
      rcases mem_append.mp hhop with hhop | hhop
      · obtain ⟨r, hr, rfl⟩ := mem_map.mp hhop
        exact hnodes.sealable_relays (hmem r hr)
      · rw [mem_singleton.mp hhop]
        exact hnodes.sealable dest hdest (Nat.pos_of_ne_zero hkey)
    obtain ⟨hops, blob, hhops, hblob⟩ :=
      exists_onion (m.draw (Largest.fragment 0) 0) (fc.inner s m (Largest.fragment 0))
      (append_ne_nil_of_right_ne_nil _ (cons_ne_nil _ _)) hsealable
    obtain ⟨path, hpath', hsame, -⟩ :=
      hreal (Largest.fragment 0) 0 _ blob (bind_eq_ok.mpr ⟨_, hpath, bind_eq_ok.mpr ⟨hops, hhops,
      bind_eq_ok.mpr ⟨blob, hblob, rfl⟩⟩⟩)
    cases hpath.symm.trans hpath'
    simp only [pathOf, length_append, length_map, length_singleton] at hsame
    omega
  · rintro ⟨hcount, hsame⟩
    obtain ⟨first, rest, blob, hcover, hlen, hblob⟩ := cover_eq (m := m) hH hnodes hpriv hcount (by omega) d
    refine ⟨first, rest, blob, hcover, by rw [sendCover, hcover], fun piece copyIdx hop real honion => ?_⟩
    obtain ⟨path, onionHops, hpath, hhops, hrealBlob, -⟩ := ForwardCtx.onion_ok honion
    obtain ⟨picked, hpath', hpicked, hmem⟩ := path_eq hnodes hdest hfc hmany piece copyIdx
    cases hpath.symm.trans hpath'
    have hlayers : (first :: rest).length = (pathOf picked (s.destPeer dest)).length := by
      simp only [pathOf, length_append, length_map, length_singleton]
      omega
    refine ⟨_, hpath, hlayers, fun hcells => ?_⟩
    have hinner : (s.buildDecoyInner d).length = (fc.inner s m piece).length := by
      rw [← Nat.div_mul_cancel (dvd_buildDecoyInner hpad d), hcells, Nat.div_mul_cancel (dvd_inner hpad piece)]
    rw [hblob, length_onion hH hhops hrealBlob, layersOf_eq _ _ (hnodes.names hmem (.inr rfl)), hlayers,
      hinner, onionLength]

namespace Trio

def decoy : Decoy := ⟨0, ⟨List.replicate coverPayloadSize 7, length_replicate⟩, 0, 0⟩

def covering (adaptive : Bool) (hopCount : Int) : Sender :=
  { signing with
    adaptiveOnion := adaptive, minOnionHops := 1, maxOnionHops := 1, hopCount, padCell := 1024, selfID := "s" }

def target : Node := { peer "d" 1 with capabilities := [] }

def around : List Node := [target, peer "a" 2, peer "b" 3]

theorem alike (adaptive : Bool) (hopCount : Int) : (covering adaptive hopCount).Alike around target where
  active := by decide
  ids := by decide
  named := by decide
  addresses := by
    show ∀ n ∈ around, (strBytes (sender.peerDialAddr n)).length = (strBytes (sender.peerDialAddr target)).length
    decide +kernel
  lengths := by decide +kernel
  sealable n _ _ := ⟨n.pubKey, rfl, fun _ _ => ⟨_, rfl⟩⟩

def sentBy (s : Sender) : Option ForwardCtx :=
  (s.newForwardCtx (moment true) target around Transfer.Sample.transferID {} []).toOption

def real (s : Sender) : Option (Nat × Nat) :=
  (sentBy s).bind fun fc => do
    let path ← (fc.path s chunk 0).toOption
    let onion ← (fc.onion s (moment true) chunk (fc.inner s (moment true) chunk) 0).toOption
    return (path.length, onion.2.length)

def faked (s : Sender) : Option (Nat × Nat) :=
  (s.cover (s.relayPeers (fun _ => false) around s.selfID) decoy).map fun c => (c.1.length, c.2.length)

end Trio

open Trio in
/-- There are two relays, so of five hops that are configured a decoy has two. --/
theorem decoys_alike_five :
    (∃ fc, sentBy (covering true 5) = some fc ∧ (covering true 5).Passes (moment true) around fc decoy) ∧
    real (covering true 5) = some (2, 1174) ∧ faked (covering true 5) = some (2, 1174) := by
  have hsent : (sentBy (covering true 5)).any (fun fc => fc.hops = 1) = true := by decide +kernel
  obtain ⟨fc, hfc, hhops⟩ : ∃ fc, sentBy (covering true 5) = some fc ∧ decide (fc.hops = 1) = true := by
    simpa [Option.any_eq_true] using hsent
  have hmany : (((covering true 5).relayPeers (fun _ => false) around "s").length : Int) = 2 := by decide +kernel
  have hhops : fc.hops = 1 := of_decide_eq_true hhops
  refine ⟨⟨fc, hfc,
    (decoys_alike (by decide) stacked_sized (alike true 5) (by decide) (toOption_eq_some.mp hfc) ?_ decoy).mpr ?_⟩,
    by decide +kernel⟩
  · rw [hhops]
    exact hmany.ge
  · rw [hhops]
    exact ⟨by decide, hmany ▸ rfl⟩

open Trio in
/-- With a number of hops that is configured a decoy has one layer less, and is shorter; with an adaptive number alone
    there are no decoys. --/
theorem decoys_differ : real (covering false 1) = some (2, 1174) ∧ faked (covering false 1) = some (1, 1097) ∧
    real (covering true 0) = some (2, 1174) ∧ faked (covering true 0) = none := by
  decide +kernel

end Sender
end SyncSwarm.Transfer
