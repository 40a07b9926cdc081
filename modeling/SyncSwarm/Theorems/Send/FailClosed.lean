import SyncSwarm.Theorems.Encryption.Onion
import SyncSwarm.Theorems.Send.Emissions
import SyncSwarm.Theorems.Transfer.RoundTrip

/-! Anonymity that fails closed: when it is required, what leaves the node are onions for the destination, handed to a
    relay, and nothing else. -/

namespace SyncSwarm.Transfer
open Lib Protocol Fragment Encryption Routing List
open Discovery (Node)

namespace Sender
variable {s : Sender} {m : Moment} {nodes : List Node} {dest : Node}

/-- The emission goes to the destination: by per-hop routing, to its address, or over a Link with it. --/
def Reaches (s : Sender) (dest : Node) : Emission → Prop
  | .routed _ _ _ => True
  | .dial addr _ | .write addr _ _ => addr = s.peerDialAddr dest
  | .dialLink nodeID _ | .sendRelay nodeID _ _ => nodeID = dest.id

/-- The address of a connection that is dialed or written to. --/
def address? : Emission → Option String
  | .dial addr _ | .write addr _ _ => some addr
  | .routed _ _ _ | .dialLink _ _ | .sendRelay _ _ _ => none

/-- An onion around a fragment, for a path over relays to the destination. --/
structure Onion (s : Sender) (m : Moment) (nodes : List Node) (dest : Node) (picked : List Peer) (blob : Bytes) :
    Prop where
  /-- The relays are other nodes than the destination, under the names and at the addresses that the table has. -/
  relay : ∀ r ∈ picked, ∃ n ∈ nodes, r = s.relayPeer n ∧ hasCapability n.capabilities "relay" ∧ n.id ≠ dest.id
  adaptive : s.adaptiveOnion → (picked.length : Int) = adaptiveHops s.net (s.peerDialAddr dest)
      (s.relayPeers m.excommunicated nodes dest.id) s.minOnionHops s.maxOnionHops ∧ max 1 s.minOnionHops ≤ picked.length
  layers : ∃ hops draw id piece sc replyBlock now, s.toOnionHops (pathOf picked (s.destPeer dest)) = .ok hops ∧
    s.hybrid.buildOnion draw hops (s.buildInnerFragment id dest.id "" piece sc replyBlock now) = .ok blob

/-- The emission is part of handing such an onion to the first relay of its path. --/
def Shields (s : Sender) (m : Moment) (nodes : List Node) (dest : Node) (e : Emission) : Prop :=
  ∃ first rest blob, s.Onion m nodes dest (first :: rest) blob ∧ e.Hands first.id first.address blob

theorem Shields.of_reaches {e : Emission} (h : s.Shields m nodes dest e) (hreaches : s.Reaches dest e) :
    ∃ n ∈ nodes, n.id ≠ dest.id ∧ address? e = some (s.peerDialAddr n) := by
  obtain ⟨first, rest, blob, honion, hhands⟩ := h
  obtain ⟨n, hn, rfl, -, hne⟩ := honion.relay first mem_cons_self
  cases hhands with
  | dial | write => exact ⟨n, hn, hne, rfl⟩
  | dialLink | sendRelay => exact absurd hreaches hne

theorem mem_relayPeers {excommunicated : String → Bool} {excludeID : String} {r : Peer}
    (h : r ∈ s.relayPeers excommunicated nodes excludeID) :
    ∃ n ∈ nodes, r = s.relayPeer n ∧ hasCapability n.capabilities "relay" ∧ n.id ≠ excludeID := by
  obtain ⟨n, hn, rfl⟩ := mem_map.mp h
  obtain ⟨hmem, hcond⟩ := mem_filter.mp hn
  simp only [Bool.and_eq_true, decide_eq_true_eq] at hcond
  exact ⟨n, hmem, rfl, hcond.1.2, hcond.1.1.1⟩

theorem usable_relayPeers {excommunicated : String → Bool} {excludeID : String} {r : Peer}
    (hactive : ∀ n ∈ nodes, n.id ≠ excludeID → n.active = true) (h : r ∈ s.relayPeers excommunicated nodes excludeID) :
    r.usable := by
  obtain ⟨n, hn, rfl⟩ := mem_map.mp h
  obtain ⟨hmem, hcond⟩ := mem_filter.mp hn
  simp only [Bool.and_eq_true, decide_eq_true_eq] at hcond
  simp [Peer.usable, relayPeer, hactive n hmem hcond.1.1.1, hcond.1.1.2]

theorem eligible_relayPeers (excommunicated : String → Bool) :
    eligible (s.destPeer dest) (s.relayPeers excommunicated nodes dest.id) =
      (s.relayPeers excommunicated nodes dest.id).filter Peer.usable := by
  refine filter_congr fun r hr => ?_
  obtain ⟨n, -, rfl, -, hne⟩ := mem_relayPeers hr
  have hne : (s.relayPeer n).id ≠ (s.destPeer dest).id := hne
  simp [hne]

theorem ForwardCtx.Toward.adaptive {fc : ForwardCtx} (h : fc.Toward s m nodes dest)
    (hadaptive : s.adaptiveOnion = true) :
    fc.hops = adaptiveHops s.net (s.peerDialAddr dest) (s.relayPeers m.excommunicated nodes dest.id) s.minOnionHops
      s.maxOnionHops ∧
    max 1 s.minOnionHops ≤ fc.hops ∧
    fc.hops ≤ countNew (fun r : Peer => subnetKey s.net r.address) [subnetKey s.net fc.destPeer.address]
      (eligible fc.destPeer fc.relays) := by
  have hhops : fc.hops = adaptiveHops s.net (s.peerDialAddr dest) (s.relayPeers m.excommunicated nodes dest.id)
      s.minOnionHops s.maxOnionHops := by
    rw [h.hops, h.relays, hopsFor, if_pos hadaptive]
  have hspec := adaptiveHops_spec (hhops ▸ h.hops_pos)
  rw [← hhops] at hspec
  rw [h.destPeer, h.relays, eligible_relayPeers]
  exact ⟨hhops, hspec⟩

theorem ForwardCtx.Toward.shields {fc : ForwardCtx} (h : fc.Toward s m nodes dest) {piece : Fragment} {e : Emission}
    (he : fc.Copies s m piece e) : s.Shields m nodes dest e := by
  obtain ⟨copyIdx, first, blob, honion, hhands⟩ := he
  obtain ⟨hops, onionHops, hpath, hkeys, hblob, rfl⟩ := ForwardCtx.onion_ok honion
  obtain ⟨rfl, hover⟩ := buildPathTiered_ok hpath
  generalize planned s.net s.rng fc.destPeer fc.relays fc.hops _ = picked at *
  have hne := hover.nonempty h.hops_pos
  obtain ⟨r, rest, rfl⟩ := exists_cons_of_ne_nil hne
  refine ⟨r, rest, blob, ⟨fun x hx => ?_, fun hadaptive => ?_, ?_⟩, hhands⟩
  · exact mem_relayPeers (h.relays ▸ (hover.relay x hx).1)
  · obtain ⟨hhops, hfloor, hmany⟩ := h.adaptive hadaptive
    have hlen := hover.diverse hmany
    exact ⟨hlen.trans hhops, hlen ▸ hfloor⟩
  · refine ⟨onionHops, m.draw piece copyIdx, fc.id, piece, fc.sc, fc.replyBlock, m.now piece, h.destPeer ▸ hkeys, ?_⟩
    rw [← h.destID]
    exact hblob

theorem only_sendForwarded_shields {id : TransferID} {frags : List Fragment} {sc : Scheme} {ackToken : Bytes} :
    Tries.Only (s.Shields m nodes dest) (s.sendForwarded m dest nodes id frags sc ackToken) := by
  refine only_sendForwarded.mono fun _ _ h e he => ?_
  obtain ⟨fc, hfc, piece, hcopies⟩ := h e he
  exact (newForwardCtx_ok hfc).2.2.shields hcopies

theorem usePerHop_of_failClosed (h : s.failClosed = true) : s.usePerHop = false := by
  rw [failClosed, Bool.or_eq_true] at h
  rcases h with h | h
  · simp [usePerHop, h]
  · simp [usePerHop, h]

theorem only_sendOnce (hclosed : s.failClosed = true) (hforward : s.wantForward = true) (hpriv : s.nodePriv.isSome)
    {job : Job} (hne : job.destNode ≠ "") (hdest : byID job.nodes job.destNode = some dest)
    (hkey : 0 < dest.pubKey.length) :
    Tries.Only (s.Shields m job.nodes dest) (s.sendOnce m job) := by
  rw [sendOnce, if_neg (by simp [usePerHop_of_failClosed hclosed]), sendBeyondRouting, hdest]
  simp only
  rw [if_pos ⟨hne, hforward, hpriv, hkey⟩]
  refine Tries.Only.bind only_sendForwarded_shields fun out => ?_
  cases out with
  | ok _ => exact Tries.Only.of_pure
  | error e =>
    simp only [hclosed, if_true]
    exact Tries.Only.of_pure

theorem only_streamOnce (hclosed : s.failClosed = true) {id : TransferID} {frags : List Fragment} {sc : Scheme}
    {ackToken : Bytes} :
    Tries.Only (s.Shields m nodes dest) (s.streamOnce m dest nodes id frags sc ackToken) := by
  simp only [streamOnce]
  split
  next fc hfc =>
    have hctx : s.newForwardCtx m dest nodes id sc ackToken = .ok fc := by
      split at hfc
      · exact toOption_eq_some.mp (Option.filter_eq_some_iff.mp hfc).1
      · cases hfc
    refine Tries.Only.bind (Tries.Only.of_each fun frag _ => ?_) fun out => Tries.Only.of_pure
    refine ForwardCtx.only_sendFragment.mono fun _ _ h e he => ?_
    obtain ⟨piece, -, hcopies⟩ := h e he
    exact (newForwardCtx_ok hctx).2.2.shields hcopies
  · simp only [hclosed, if_true]
    exact Tries.Only.of_pure

theorem byID_spec {id : String} (h : byID nodes id = some dest) : dest ∈ nodes ∧ dest.id = id := by
  have hid := find?_some h
  exact ⟨mem_reverse.mp (mem_of_find?_eq_some h), of_decide_eq_true hid⟩

/-- When anonymity is required, everything that a send of data to a named destination or a send of a stream emits,
    with whatever dials and writes failing, in whatever attempt, is part of handing an onion for the destination to
    the first relay of its path. None of it goes to the destination, but for a connection to its address when the
    table lists another node there. --/
theorem fails_closed (hclosed : s.failClosed = true) (hforward : s.wantForward = true) (hpriv : s.nodePriv.isSome) :
    (∀ env id data destNode isVariable, destNode ≠ "" →
      ∀ e ∈ (s.sendDataTracked env id data destNode isVariable).emitted,
      ∃ k, ∃ dest ∈ env.candidates destNode, dest.id = destNode ∧
        s.Shields (env.attempts k) (env.candidates destNode) dest e ∧
        (s.Reaches dest e → ∃ n ∈ env.candidates destNode, n.id ≠ destNode ∧ address? e = some (s.peerDialAddr n))) ∧
    ∀ env id content destNode, ∀ e ∈ (s.sendStream env id content destNode).emitted,
      ∃ dest ∈ env.lookup.resolveDest destNode, dest.id = destNode ∧
        s.Shields env.attempt (env.lookup.resolveDest destNode) dest e ∧
        (s.Reaches dest e → ∃ n ∈ env.lookup.resolveDest destNode, n.id ≠ destNode ∧
          address? e = some (s.peerDialAddr n)) := by
  refine ⟨fun env id data destNode isVariable hne e he => ?_, fun env id content destNode e he => ?_⟩
  · obtain ⟨job, k, hjob, hk⟩ := mem_emitted he
    obtain ⟨-, rfl, hnodes, -, hknown, hroute, -, -⟩ := prepare_ok hjob
    obtain ⟨dest, hdest⟩ := Option.isSome_iff_exists.mp (hknown hne)
    have hkey : 0 < dest.pubKey.length := by
      simp only [noRoute, hclosed, hforward, hpriv, hdest, hne, ne_eq, not_false_eq_true, decide_true,
        Bool.and_self, Bool.true_and,
        Bool.or_eq_false_iff, decide_eq_false_iff_not] at hroute
      exact Nat.pos_of_ne_zero hroute.1.1
    rw [← hnodes]
    obtain ⟨hmem, hid⟩ := byID_spec hdest
    have hshields : s.Shields (env.attempts k) job.nodes dest e :=
      only_sendOnce hclosed hforward hpriv hne hdest hkey (env.attempts k).answers (fun _ => trivial) e hk
    exact ⟨k, dest, hmem, hid, hshields, hid ▸ hshields.of_reaches⟩
  · simp only [sendStream] at he
    split at he
    · cases he
    · split at he
      · cases he
      · split at he
        · cases he
        next dest hdest =>
          have hid : dest.id = destNode := by simpa using find?_some hdest
          have hshields := only_streamOnce hclosed env.attempt.answers (fun _ => trivial) e he
          exact ⟨dest, mem_of_find?_eq_some hdest, hid, hshields, hid ▸ hshields.of_reaches⟩

namespace Trio
open Transfer.Sample (node transferID)

def net : Discovery.Net where
  splitHost _ := none
  parseIP _ := none
  resolve addr := some addr

def platform : Platform where
  net
  rng := ⟨fun _ _ peers => peers, fun _ _ peers => .refl peers⟩
  hybrid := Encryption.Sample.twofold
  sigs := { sha256 := FixedBytes.copy 32, publicKey := id, sign := fun _ _ => [], verify := fun _ _ _ => false }
  rs := copies
  text _ := []
  newPublicKey key := .ok key
  parseMLKEMPub _ := none
  sealerTo _ := Transfer.Sample.labelSealer
  pqSealerTo _ _ := Transfer.Sample.labelSealer
  marshalReply entryAddr blob := lenBytes (strBytes entryAddr) ++ blob

def sender : Sender :=
  { platform with
    cfg := node 0 0 16 none
    selfID := "s"
    nodePriv := some [9]
    selfHost := "s"
    dataPort := 1
    hopCount := 0
    strictAnon := false
    adaptiveOnion := true
    minOnionHops := 2
    maxOnionHops := 0
    perHopRouting := true
    onionOverLinks := false
    confirm := true
    redundancy := 1
    adaptiveRedundancy := false
    minRedundancy := 0
    maxRedundancy := 0
    subChunkSize := 0
    padCell := 0
    sealToRecipient := false
    postQuantum := false
    seedHosts := fun _ => false }

def peer (id : String) (key : UInt8) : Node :=
  { id, address := id, lastSeen := 0, active := true, pubKey := [key], signKey := [], port := 1,
    capabilities := ["relay"], relayIDs := [], mlkemPub := [] }

def moment (ok : Bool) : Moment where
  answers _ := ok
  excommunicated _ := false
  mtu := 0
  now _ := 0
  draw _ _ := 0
  replyNow := 0
  replyDraw := 0
  wait := .timeout

def surroundings (ok : Bool) : Surroundings where
  lookup := { active := [peer "d" 1, peer "a" 2, peer "b" 3], found := false, reachable := false,
              activeFound := [], resolved := false, activeResolved := [] }
  nodeByID := none
  circuitReachable := false
  excommunicated _ := false
  saveChunk _ := none
  ackToken := [5]
  attempts _ := moment ok

end Trio

open Trio in
theorem fails_closed_dial : ∃ dest first rest blob, dest.id = "d" ∧
    sender.Onion (moment false) ((surroundings false).candidates "d") dest (first :: rest) blob ∧
    (Emission.dial "a:1" false).Hands first.id first.address blob := by
  have hmem : Emission.dial "a:1" false ∈
      (sender.sendDataTracked (surroundings false) Transfer.Sample.transferID [1, 2, 3] "d" false).emitted := by
    decide +kernel
  obtain ⟨k, dest, -, hid, ⟨first, rest, blob, honion, hhands⟩, -⟩ :=
    (fails_closed (s := sender) (by decide) (by decide) (by decide)).1 (surroundings false) _ _ "d" false
      (by decide) _ hmem
  exact ⟨dest, first, rest, blob, hid, honion, hhands⟩

namespace Trio

def strict : Sender := { sender with adaptiveOnion := false, strictAnon := true, hopCount := 1 }

/-- The only relay is listed at the address of the destination, and no connection is in the pool. --/
def shared : Surroundings :=
  { surroundings true with
    lookup := { (surroundings true).lookup with active := [peer "d" 1, { peer "a" 2 with address := "d" }] }
    attempts := fun _ => { moment true with answers := fun n => decide (n ≠ 0) } }

end Trio

open Trio in
/-- The addresses are not compared: when the relay is listed at the destination's, the destination is dialed. --/
theorem shared_address_dialed : strict.failClosed = true ∧ strict.wantForward = true ∧ strict.nodePriv.isSome ∧
    strict.Reaches (peer "d" 1) (.dial "d:1" true) ∧
    .dial "d:1" true ∈ (strict.sendDataTracked shared Transfer.Sample.transferID [1, 2, 3] "d" false).emitted := by
  refine ⟨by decide, by decide, by decide, ?_, by decide +kernel⟩
  show "d:1" = strict.peerDialAddr (peer "d" 1)
  decide +kernel

end Sender
end SyncSwarm.Transfer
