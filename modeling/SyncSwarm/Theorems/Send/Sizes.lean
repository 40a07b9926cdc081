import Mathlib.Algebra.Order.BigOperators.Group.List
import Mathlib.Algebra.Order.Group.Nat
import SyncSwarm.Theorems.Delivery.Moves
import SyncSwarm.Theorems.Discovery.Hops
import SyncSwarm.Theorems.Routing.Diversity
import SyncSwarm.Theorems.Send.Return
import SyncSwarm.Transfer.Wire

/-! How large the packets of a send are on the wire, from the piece at the inside to the frame of a hop. -/

namespace SyncSwarm.Protocol

@[simp] theorem length_strBytes_empty : (strBytes "").length = 0 := rfl

/-- The lengths of the keys and of the signatures of Ed25519. --/
structure Signatures.Sized (S : Signatures) (signKey : Bytes) : Prop where
  publicKey : (S.publicKey signKey).length = 32
  signature : ∀ msg, (S.sign signKey msg).length = 64

end SyncSwarm.Protocol

namespace SyncSwarm.Encryption
open Lib Protocol List

namespace Hybrid
variable {H : Hybrid} {draw : Nat} {payload blob : Bytes} {hops : List OnionHop}

/-- A seal adds the ephemeral key, the nonce and the tag. --/
def Sized (H : Hybrid) : Prop :=
  ∀ draw pub plain aad sealed, H.sealHybrid draw pub plain aad = .ok sealed → sealed.length = 60 + plain.length

def namesLength (hop : OnionHop) : Nat := (strBytes hop.addr).length + (strBytes hop.nodeID).length

/-- What the layers of an onion add to its payload. Each but the last names the next hop. --/
def layersLength (hops : List OnionHop) : Nat := hops.length * 73 + (hops.tail.map namesLength).sum

theorem length_layer (l : OnionLayer) :
    l.marshalBinary.length = 13 + (strBytes l.nextAddr).length + (strBytes l.nextNode).length + l.inner.length := by
  simp only [OnionLayer.marshalBinary, length_cons, length_append, length_lenBytes]
  omega

theorem length_wrap (hH : H.Sized) (h : H.wrap draw payload hops = .ok blob) :
    blob.length = payload.length + layersLength hops := by
  induction hops generalizing blob with
  | nil => cases h
  | cons hop rest ih =>
    cases rest with
    | nil =>
      have hlen := hH _ _ _ _ _ h
      rw [length_layer] at hlen
      simp only [OnionLayer.last, length_strBytes_empty] at hlen
      simp only [layersLength, length_singleton, tail_cons, map_nil, sum_nil]
      omega
    | cons next rest =>
      obtain ⟨inside, hinside, hseal⟩ := bind_eq_ok.mp h
      have hlen := hH _ _ _ _ _ hseal
      rw [length_layer] at hlen
      have hin := ih hinside
      simp only [OnionLayer.toward] at hlen
      simp only [layersLength, length_cons, tail_cons, map_cons, sum_cons, namesLength] at hin ⊢
      omega

theorem length_buildOnion (hH : H.Sized) (h : H.buildOnion draw hops payload = .ok blob) :
    blob.length = payload.length + layersLength hops := by
  rw [buildOnion] at h
  split at h
  · cases h
  · split at h
    · cases h
    · exact length_wrap hH h

theorem exists_wrap (draw : Nat) (payload : Bytes) (hne : hops ≠ [])
    (hseals : ∀ hop ∈ hops, ∀ n plain, ∃ c, H.sealHybrid n (hop.pubKey.getD []) plain [] = .ok c) :
    ∃ blob, H.wrap draw payload hops = .ok blob := by
  induction hops with
  | nil => exact absurd rfl hne
  | cons hop rest ih =>
    cases rest with
    | nil => exact hseals hop mem_cons_self _ _
    | cons next rest =>
      obtain ⟨inside, hinside⟩ := ih (cons_ne_nil _ _) fun y hy => hseals y (mem_cons_of_mem hop hy)
      obtain ⟨blob, hblob⟩ :=
        hseals hop mem_cons_self (draw + (next :: rest).length) (OnionLayer.toward next inside).marshalBinary
      exact ⟨blob, bind_eq_ok.mpr ⟨inside, hinside, hblob⟩⟩

end Hybrid
end SyncSwarm.Encryption

namespace SyncSwarm.Transfer
open Lib Protocol Fragment Encryption Routing List
open Discovery (Node)

/-! ### Padding and signing -/

variable {pkt : SignedPacket} {padCell : Int} {S : Signatures} {signKey : Bytes}

theorem marshaledLen_pad (pkt : SignedPacket) (pad : Bytes) :
    marshaledLen { pkt with pad } = marshaledLen { pkt with pad := [] } + pad.length := by
  simp only [marshaledLen, length_marshalBinary, length_nil, Nat.add_zero]

/-- A length that is rounded up to whole cells. --/
def padded (padCell : Int) (len : Nat) : Nat :=
  if padCell ≤ 0 then len else (len + padCell.toNat - 1) / padCell.toNat * padCell.toNat

theorem marshaledLen_padPacket (padCell : Int) {pkt : SignedPacket} (hpad : pkt.pad = []) :
    marshaledLen (padPacket padCell pkt) = padded padCell (marshaledLen pkt) := by
  have hsame : ({ pkt with pad := [] } : SignedPacket) = pkt := by rw [← hpad]
  rw [padPacket, padded]
  split
  · rfl
  next hcell =>
    obtain ⟨cell, hcell⟩ : ∃ cell, padCell.toNat = cell + 1 := Nat.exists_eq_succ_of_ne_zero (by omega)
    dsimp only
    rw [hsame, hcell]
    have hdiv := Nat.div_add_mod (marshaledLen pkt) (cell + 1)
    have hlt := Nat.mod_lt (marshaledLen pkt) (show 0 < cell + 1 by omega)
    generalize marshaledLen pkt / (cell + 1) = q at hdiv
    split
    next hrem =>
      have hq : (marshaledLen pkt + (cell + 1) - 1) / (cell + 1) = q := by
        rw [← hdiv, hrem, Nat.add_zero, Nat.add_sub_assoc (by omega), Nat.mul_add_div (Nat.succ_pos _),
          Nat.div_eq_of_lt (by omega)]
        rfl
      rw [hq, Nat.mul_comm, ← hdiv, hrem]
      rfl
    next hrem =>
      have hq : (marshaledLen pkt + (cell + 1) - 1) / (cell + 1) = q + 1 := by
        rw [← hdiv, Nat.add_assoc, Nat.add_sub_assoc (by omega), Nat.mul_add_div (Nat.succ_pos _),
          Nat.div_eq_of_lt_le (k := 1) (by omega) (by omega)]
      rw [marshaledLen_pad, hsame, length_replicate, hq, Nat.succ_mul, Nat.mul_comm q]
      omega

theorem padded_mono (padCell : Int) {len more : Nat} (h : len ≤ more) : padded padCell len ≤ padded padCell more := by
  rw [padded, padded]
  split
  · exact h
  · exact Nat.mul_le_mul_right _ (Nat.div_le_div_right (by omega))

theorem padded_le (padCell : Int) (len : Nat) : padded padCell len ≤ len + (padCell.toNat - 1) := by
  rw [padded]
  split
  · exact Nat.le_add_right _ _
  next hcell => exact (Nat.div_mul_le_self _ _).trans (by omega)

theorem le_padded (padCell : Int) (len : Nat) : len ≤ padded padCell len := by
  rw [padded]
  split
  · exact Nat.le_refl len
  next hcell =>
    have hdiv := Nat.div_add_mod (len + padCell.toNat - 1) padCell.toNat
    have hlt := Nat.mod_lt (len + padCell.toNat - 1) (show 0 < padCell.toNat by omega)
    rw [Nat.mul_comm] at hdiv
    omega

theorem dvd_padPacket (hpad : pkt.pad = []) (h : 0 < padCell) :
    padCell.toNat ∣ marshaledLen (padPacket padCell pkt) := by
  rw [marshaledLen_padPacket padCell hpad, padded, if_neg (Int.not_le.mpr h)]
  exact Nat.dvd_mul_left _ _

theorem marshaledLen_sign (hS : S.Sized signKey) (hkey : pkt.signerKey = []) (hsig : pkt.signature = []) :
    marshaledLen (pkt.sign S signKey) = marshaledLen pkt + if signKey.length = 64 then 96 else 0 := by
  rw [SignedPacket.sign]
  by_cases hlen : signKey.length = 64
  · rw [if_pos hlen, if_pos hlen]
    simp only [marshaledLen, length_marshalBinary, hS.publicKey, hS.signature, hkey, hsig, length_nil]
    omega
  · rw [if_neg hlen, if_neg hlen, Nat.add_zero]

/-! ### Acknowledgements -/

namespace Destination
variable {d : Destination} {node : String} {ack : SignedPacket}

/-- An acknowledgement that the node sends to another, as an answer on a connection or for a
    transfer that is complete. --/
inductive Emits (d : Destination) : String → SignedPacket → Prop where
  | direct {now active source id pkt} : d.sendAck now active source id = some pkt → Emits d source pkt
  | routed {now origin id pkt} : d.sendRoutedAck now origin id = some pkt → Emits d origin pkt
  | init {w now source p pkt} : pkt ∈ d.connAcks w now source (.connect p) → Emits d p.sourceNode pkt
  | chunk {w now source c pkt} : pkt ∈ d.connAcks w now source (.ack c) → Emits d source pkt

theorem Emits.eq_finishAck (h : d.Emits node ack) :
    ∃ now id chunkNumber, ack = d.finishAck { d.newAck now node with id, chunkNumber } := by
  cases h with
  | @direct now active _ id _ h =>
    rw [sendAck] at h
    split at h
    · cases h
    · exact ⟨now, id, _, (Option.some.inj h).symm⟩
  | @routed now _ id _ h =>
    rw [sendRoutedAck] at h
    split at h
    · cases h
    · exact ⟨now, id, _, (Option.some.inj h).symm⟩
  | @init w now source p _ h =>
    obtain rfl := mem_singleton.mp h
    split
    · exact ⟨now, _, _, rfl⟩
    · exact ⟨now, _, _, rfl⟩
  | @chunk w now _ c _ h => exact ⟨now, _, _, mem_singleton.mp h⟩

theorem marshaledLen_finishAck (hS : d.sigs.Sized d.signKey) (now : Int) (node : String) (id : TransferID)
    (chunkNumber : UInt32) :
    marshaledLen (d.finishAck { d.newAck now node with id, chunkNumber }) =
      marshaledLen (padPacket d.padCell { d.newAck now node with id, chunkNumber }) +
        if d.signKey.length = 64 then 96 else 0 := by
  obtain ⟨pad, hpad⟩ := padPacket_eq d.padCell { d.newAck now node with id, chunkNumber }
  rw [finishAck, hpad]
  exact marshaledLen_sign hS rfl rfl

theorem Emits.padCell_le (h : d.Emits node ack) (hS : d.sigs.Sized d.signKey) (hpos : 0 < d.padCell) :
    d.padCell.toNat ≤ marshaledLen ack := by
  obtain ⟨now, id, chunkNumber, rfl⟩ := h.eq_finishAck
  rw [marshaledLen_finishAck hS]
  refine Nat.le_add_right_of_le (Nat.le_of_dvd ?_ (dvd_padPacket rfl hpos))
  rw [marshaledLen, length_marshalBinary]
  omega

end Destination

/-- Exactly then the acknowledgements of a node come in whole cells: what the signature adds to them after the padding
    is a number of whole cells, and so is the one in a reply block, which is not padded. --/
theorem acks_in_cells {d : Destination} {s : Sender} {m : Moment} {id : TransferID} {token : Bytes}
    (hpos : 0 < d.padCell) (hkey : d.signKey.length = 64) (hS : d.sigs.Sized d.signKey) :
    ((∀ node ack, d.Emits node ack → d.padCell.toNat ∣ marshaledLen ack) ∧
        d.padCell.toNat ∣ marshaledLen (s.ackPacket m id token)) ↔
      d.padCell.toNat ∣ 96 ∧ d.padCell.toNat ∣ 124 + token.length := by
  have hsigned : ∀ now node id chunkNumber,
    d.padCell.toNat ∣ marshaledLen (d.finishAck { d.newAck now node with id, chunkNumber }) ↔
      d.padCell.toNat ∣ 96 := by
    intro now node id chunkNumber
    rw [Destination.marshaledLen_finishAck hS, if_pos hkey]
    exact Nat.dvd_add_right (dvd_padPacket rfl hpos)
  have hreply : marshaledLen (s.ackPacket m id token) = 124 + token.length := by
    rw [marshaledLen, length_marshalBinary]
    simp [Sender.ackPacket, SignedPacket.new]
  rw [hreply]
  refine and_congr_left fun _ => ⟨fun h => ?_, fun h node ack hack => ?_⟩
  · -- Every chunk is acknowledged, whatever the state of the connection is.
    have hchunk : d.Emits "" (d.finishAck (d.newAck 0 "")) := .chunk (w := .new) (c := 0) mem_cons_self
    exact (hsigned ..).mp (h _ _ hchunk)
  · obtain ⟨now, id, chunkNumber, rfl⟩ := hack.eq_finishAck
    exact (hsigned ..).mpr h

namespace Cells

def sigs : Signatures where
  sha256 := FixedBytes.copy 32
  publicKey _ := List.replicate 32 1
  sign _ _ := List.replicate 64 2
  verify _ _ _ := true

theorem sized (signKey : Bytes) : sigs.Sized signKey := ⟨length_replicate, fun _ => length_replicate⟩

def node (padCell : Int) : Destination where
  cfg := Sample.node 0 0 16 none
  rs := copies
  sigs
  text _ := []
  signKey := List.replicate 64 3
  padCell

def token : Bytes := List.replicate 16 5

theorem emits (padCell : Int) : ∃ ack, (node padCell).Emits "peer" ack := by
  have hself : "peer" ≠ (node padCell).selfID := by
    show "peer" ≠ (node 0).selfID
    decide +kernel
  have hsent : (node padCell).sendAck 0 true "peer" Transfer.Sample.transferID = some _ := if_neg (by simpa using hself)
  exact ⟨_, .direct hsent⟩

end Cells

open Cells in
theorem acks_in_cells_four : (∀ dest ack, (node 4).Emits dest ack → 4 ∣ marshaledLen ack) ∧
    4 ∣ marshaledLen (Sender.Trio.sender.ackPacket (Sender.Trio.moment true) Sample.transferID token) :=
  (acks_in_cells (d := node 4) (by decide) (by decide) (sized _)).mpr ⟨by decide, by decide⟩

open Cells in
/-- With cells of 512 bytes a signed acknowledgement has 608, and the one in a reply block 140. --/
theorem acks_off_cells : (∃ ack, (node 512).Emits "peer" ack ∧ marshaledLen ack = 608) ∧
    marshaledLen (Sender.Trio.sender.ackPacket (Sender.Trio.moment true) Sample.transferID token) = 140 ∧ ¬512 ∣ 608 ∧
      ¬512 ∣ 140 := by
  have hack : ((node 512).sendAck 0 true "peer" Sample.transferID).map marshaledLen = some 608 := by decide +kernel
  obtain ⟨ack, hsent, hlen⟩ := Option.map_eq_some_iff.mp hack
  exact ⟨⟨ack, .direct hsent, hlen⟩, by decide +kernel, by decide, by decide⟩

/-! ### Pieces -/

section
variable {frag piece : Fragment} {sub : Int}

theorem payloads_fragmentPieces (frag : Fragment) (sub : Int) :
    (fragmentPieces frag sub).map (·.payload) = pieceParts frag sub := by
  refine ext_getElem? fun i => ?_
  simp [fragmentPieces_eq, Function.comp_def]

theorem length_piece_le (hsub : 0 < sub) (h : piece ∈ fragmentPieces frag sub) :
    (piece.payload.length : Int) ≤ sub := by
  have hpart : piece.payload ∈ pieceParts frag sub := payloads_fragmentPieces frag sub ▸ mem_map_of_mem h
  rw [pieceParts] at hpart
  split at hpart
  next hwhole =>
    rw [mem_singleton.mp hpart]
    omega
  next hcut =>
    rw [split_of_pos hsub] at hpart
    have := length_le_of_mem_chunks hpart
    omega

theorem piece_ne_nil (hne : frag.payload ≠ []) (h : piece ∈ fragmentPieces frag sub) : piece.payload ≠ [] := by
  have hpart : piece.payload ∈ pieceParts frag sub := payloads_fragmentPieces frag sub ▸ mem_map_of_mem h
  rw [pieceParts] at hpart
  split at hpart
  next hwhole => rwa [mem_singleton.mp hpart]
  next hcut =>
    rw [split_of_pos (by omega)] at hpart
    obtain ⟨i, hi, heq⟩ := mem_chunks hpart
    rw [heq, ← length_pos_iff, length_take, length_drop]
    have hlt := (lt_chunkCount_iff (by omega)).mp hi
    omega

end

/-! ### Routed frames -/

namespace Sender
variable {s : Sender} {m : Moment} {id : TransferID} {destID sourceNode : String} {sc : Scheme}
  {replyBlock : Bytes} {now : Int}

theorem length_buildInnerFragment (piece : Fragment) :
    (s.buildInnerFragment id destID sourceNode piece sc replyBlock now).length =
    padded s.padCell (124 + (strBytes sourceNode).length + (strBytes destID).length + piece.payload.length +
      replyBlock.length) := by
  rw [buildInnerFragment, innerFragment, ← marshaledLen, marshaledLen_padPacket _ rfl, marshaledLen,
    length_marshalBinary]
  simp only [SignedPacket.new, packetOf, applyScheme, length_strBytes_empty, length_nil, Nat.add_zero]

theorem only_sendRouted {ackOrigin : String} {frags : List Fragment} : Tries.Only (fun e => ∃ frag ∈ frags,
    ∃ piece ∈ fragmentPieces frag (routedSubChunkFor m.mtu s.subChunkSize s.padCell), ∃ ok,
      e = .routed destID (s.buildInnerFragment id destID ackOrigin piece sc [] (m.now piece)) ok)
    (s.sendRouted m destID ackOrigin id frags sc) := by
  refine Tries.Only.of_each fun frag hfrag => Tries.Only.of_each fun piece hpiece =>
    Tries.Only.bind (Tries.Only.of_attempt fun ok => ?_) fun ok => ?_
  · exact ⟨frag, hfrag, piece, hpiece, ok, rfl⟩
  · exact Tries.Only.of_pure

theorem length_routed {env : Discovery.Env} {cfg : Discovery.Config} {w : Discovery.Discovery} {inner : Bytes}
    {i : Discovery.Interface} {hop : String} {pkt : SignedPacket}
    (h : .send i hop pkt ∈ w.sendRouted env cfg destID inner 0) :
    marshaledLen pkt = 125 + (strBytes cfg.selfID).length + (strBytes destID).length + inner.length := by
  obtain ⟨j, hop', heq⟩ := Discovery.Discovery.mem_routeToward h
  rw [(Discovery.Emit.send.inj heq).2.2, marshaledLen, length_marshalBinary]
  simp only [Discovery.Discovery.newPacket, SignedPacket.new, encodeRouted, length_strBytes_empty,
    length_nil, length_cons]
  omega

theorem routedSubChunkFor_pos {mtu subChunkSize padCell : Int} (h : 0 < subChunkSize) :
    0 < routedSubChunkFor mtu subChunkSize padCell := by
  simp only [routedSubChunkFor, minRoutedSubChunk]
  split_ifs <;> omega

theorem routedSubChunkFor_le {mtu subChunkSize padCell : Int} (hpad : 0 ≤ padCell) (h : 441 + padCell ≤ mtu) :
    377 + routedSubChunkFor mtu subChunkSize padCell + padCell ≤ mtu := by
  simp only [routedSubChunkFor, routedFrameOverhead, innerFragmentReserve, minRoutedSubChunk]
  split_ifs <;> omega

/-- The frames of `sendRouted` fit the first hop, and its pieces carry the fragments. --/
theorem routed_frames_fit {ackOrigin : String} {frags : List Fragment} {env : Discovery.Env} {cfg : Discovery.Config}
    {w : Discovery.Discovery} (hpad : 0 ≤ s.padCell) (hmtu : 441 + s.padCell ≤ m.mtu) (hsub : 0 < s.subChunkSize)
    (hself : (strBytes cfg.selfID).length = 32) (hdest : (strBytes destID).length = 32)
    (horigin : ackOrigin = "" ∨ (strBytes ackOrigin).length = 32) :
    (∀ answers, ∀ e ∈ ((s.sendRouted m destID ackOrigin id frags sc).run answers).done, ∃ inner ok,
      e = .routed destID inner ok ∧
      ∀ i hop pkt, .send i hop pkt ∈ w.sendRouted env cfg destID inner 0 → (marshaledLen pkt : Int) ≤ m.mtu) ∧
    ∀ frag ∈ frags, frag.payload ≠ [] →
      (∀ piece ∈ fragmentPieces frag (routedSubChunkFor m.mtu s.subChunkSize s.padCell), piece.payload ≠ []) ∧
      ((fragmentPieces frag (routedSubChunkFor m.mtu s.subChunkSize s.padCell)).map (·.payload)).flatten =
        frag.payload := by
  refine ⟨fun answers e he => ?_, fun frag _ hne => ⟨fun piece => piece_ne_nil hne, ?_⟩⟩
  · obtain ⟨frag, -, piece, hpiece, ok, rfl⟩ := only_sendRouted answers (fun _ => trivial) e he
    refine ⟨_, ok, rfl, fun i hop pkt hpkt => ?_⟩
    have horigin : (strBytes ackOrigin).length ≤ 32 := by
      rcases horigin with rfl | h
      · decide
      · exact h.le
    have hinner : (s.buildInnerFragment id destID ackOrigin piece sc [] (m.now piece)).length = _ :=
      length_buildInnerFragment piece
    have hpiece := length_piece_le (routedSubChunkFor_pos hsub) hpiece
    have hfits : 377 + routedSubChunkFor m.mtu s.subChunkSize s.padCell + s.padCell ≤ m.mtu :=
      routedSubChunkFor_le hpad hmtu
    have hcells := padded_le s.padCell
      (124 + (strBytes ackOrigin).length + (strBytes destID).length + piece.payload.length + ([] : Bytes).length)
    rw [length_routed hpkt, hinner]
    rw [length_nil] at hcells ⊢
    omega
  · rw [payloads_fragmentPieces, flatten_pieceParts]

namespace Trio
open Discovery.Trio (hopEnv config transport thirdAddr peerID)

def routing : Sender := { sender with subChunkSize := 100, padCell := 16 }

def narrow : Moment := { moment true with mtu := 457 }

def chunk : Fragment := ⟨Transfer.Sample.transferID, 0, 1, List.replicate 150 7, 0, 0, false, 0, 0, false⟩

/-- The first hop of what `sendRouted` hands over. --/
def relayed : Emission → List Discovery.Emit
  | .routed destID inner _ => (transport thirdAddr).sendRouted hopEnv config destID inner 0
  | _ => []

end Trio

open Trio Discovery.Trio in
theorem routed_frames_fit_narrow :
    ((routing.sendRouted narrow peerID "" Transfer.Sample.transferID [chunk] {}).run fun _ => true).done.length = 3 ∧
    ∀ e ∈ ((routing.sendRouted narrow peerID "" Transfer.Sample.transferID [chunk] {}).run fun _ => true).done,
      relayed e ≠ [] ∧ ∀ i hop pkt, .send i hop pkt ∈ relayed e → (marshaledLen pkt : Int) ≤ 457 := by
  refine ⟨by decide +kernel, fun e he => ⟨?_, ?_⟩⟩
  · have hshown : ∀ e ∈ ((routing.sendRouted narrow peerID "" Transfer.Sample.transferID [chunk] {}).run fun _ =>
        true).done, (relayed e).isEmpty = false := by decide +kernel
    exact isEmpty_eq_false_iff.mp (hshown e he)
  · have hfit := (@routed_frames_fit routing narrow Transfer.Sample.transferID peerID {} "" [chunk] hopEnv config
      (transport thirdAddr) (by decide) (by decide) (by decide) (by decide +kernel) (by decide +kernel) (.inl rfl)).1
    obtain ⟨inner, ok, rfl, hle⟩ := hfit _ e he
    exact hle

/-! ### Onions -/

theorem names_toOnionHops {path : List Hop} {hops : List OnionHop} (h : s.toOnionHops path = .ok hops) :
    hops.map (fun hop => (hop.nodeID, hop.addr)) = path.map fun hop => (hop.nodeID, hop.address) := by
  induction path generalizing hops with
  | nil =>
    cases h
    rfl
  | cons hop path ih =>
    rw [toOnionHops, mapM_cons] at h
    obtain ⟨first, hfirst, h⟩ := bind_eq_ok.mp h
    obtain ⟨rest, hrest, h⟩ := bind_eq_ok.mp h
    cases h
    split at hfirst
    · cases hfirst
    · cases hfirst
      rw [map_cons, map_cons, ih hrest]

/-- What the layers for a path add to a payload. --/
def layersOf (path : List Hop) : Nat :=
  path.length * 73 + (path.tail.map fun hop => (strBytes hop.address).length + (strBytes hop.nodeID).length).sum

theorem length_onion {path : List Hop} {hops : List OnionHop} {draw : Nat} {inner blob : Bytes} (hH : s.hybrid.Sized)
    (hhops : s.toOnionHops path = .ok hops) (hblob : s.hybrid.buildOnion draw hops inner = .ok blob) :
    blob.length = inner.length + layersOf path := by
  have hnames := names_toOnionHops hhops
  have hlen : hops.length = path.length := by simpa using congrArg List.length hnames
  have hsum :=
    congrArg (fun l => (l.tail.map fun x : String × String => (strBytes x.2).length + (strBytes x.1).length).sum) hnames
  simp only [← map_tail, map_map] at hsum
  rw [Hybrid.length_buildOnion hH hblob, Hybrid.layersLength, layersOf, hlen]
  exact congrArg (fun n => inner.length + (path.length * 73 + n)) hsum

theorem layersOf_le {path : List Hop} (names : Nat)
    (h : ∀ hop ∈ path, (strBytes hop.address).length ≤ names ∧ (strBytes hop.nodeID).length ≤ names) :
    layersOf path ≤ path.length * 73 + (path.length - 1) * (2 * names) := by
  refine Nat.add_le_add_left ?_ _
  have hsum :=
    sum_le_card_nsmul
      (path.tail.map fun hop => (strBytes hop.address).length + (strBytes hop.nodeID).length) (2 * names) ?_
  · simpa using hsum
  · intro x hx
    obtain ⟨hop, hhop, rfl⟩ := mem_map.mp hx
    have := h hop (mem_of_mem_tail hhop)
    omega

theorem layersOf_eq {path : List Hop} (addrs ids : Nat)
    (h : ∀ hop ∈ path, (strBytes hop.address).length = addrs ∧ (strBytes hop.nodeID).length = ids) :
    layersOf path = path.length * 73 + (path.length - 1) * (addrs + ids) := by
  refine congrArg (path.length * 73 + ·) ?_
  have hsum :=
    sum_eq_card_nsmul (path.tail.map fun hop => (strBytes hop.address).length + (strBytes hop.nodeID).length)
      (addrs + ids) ?_
  · simpa using hsum
  · intro x hx
    obtain ⟨hop, hhop, rfl⟩ := mem_map.mp hx
    obtain ⟨haddr, hid⟩ := h hop (mem_of_mem_tail hhop)
    rw [haddr, hid]

/-- A key that `NewPublicKey` accepts, and that can be sealed to. --/
def Sealable (s : Sender) (key : Bytes) : Prop :=
  ∃ pub, s.newPublicKey key = .ok pub ∧ ∀ draw plain, ∃ c, s.hybrid.sealHybrid draw pub plain [] = .ok c

theorem exists_onion {path : List Hop} (draw : Nat) (inner : Bytes) (hne : path ≠ [])
    (hkeys : ∀ hop ∈ path, s.Sealable hop.pubKey) :
    ∃ hops blob, s.toOnionHops path = .ok hops ∧ s.hybrid.buildOnion draw hops inner = .ok blob := by
  have hhops : ∃ hops, s.toOnionHops path = .ok hops ∧ ∀ hop ∈ hops, hop.pubKey.isSome ∧
      ∀ draw plain, ∃ c, s.hybrid.sealHybrid draw (hop.pubKey.getD []) plain [] = .ok c := by
    clear hne
    induction path with
    | nil => exact ⟨[], rfl, fun hop hhop => by cases hhop⟩
    | cons hop path ih =>
      obtain ⟨hops, hhops, hseals⟩ := ih fun y hy => hkeys y (mem_cons_of_mem hop hy)
      obtain ⟨pub, hpub, hseal⟩ := hkeys hop mem_cons_self
      refine ⟨⟨hop.nodeID, hop.address, some pub⟩ :: hops, ?_, fun y hy => ?_⟩
      · rw [toOnionHops] at hhops ⊢
        rw [mapM_cons, hpub, hhops]
        rfl
      · rcases mem_cons.mp hy with rfl | hy
        · exact ⟨rfl, hseal⟩
        · exact hseals y hy
  obtain ⟨hops, hhops, hseals⟩ := hhops
  have hsome : hops ≠ [] := by
    have hlen := congrArg List.length (names_toOnionHops hhops)
    simp only [length_map] at hlen
    exact length_pos_iff.mp (hlen ▸ length_pos_iff.mpr hne)
  obtain ⟨blob, hblob⟩ := Hybrid.exists_wrap draw inner hsome fun hop hhop => (hseals hop hhop).2
  refine ⟨hops, blob, hhops, ?_⟩
  rw [Hybrid.buildOnion, if_neg (by simpa using hsome), if_neg, hblob]
  simpa using fun hop hhop hnone => by simpa [hnone] using (hseals hop hhop).1

/-! ### Frames that are read -/

theorem only_sendFragmentDirect {addr : String} {frag : Fragment} {pkt : Packet} :
    Tries.Only (fun e => (∃ ok, e = .write addr (.chunk pkt) ok) →
    ∃ piece ∈ fragmentPieces frag s.subChunkSize, pkt = packetOf id sc s.selfID [] piece)
      (s.sendFragmentDirect addr id sc frag) := by
  refine Tries.Only.of_each fun piece hpiece => Tries.Only.bind (Tries.Only.of_attempt fun ok => ?_) fun written => ?_
  · rintro ⟨ok', heq⟩
    cases heq
    exact ⟨piece, hpiece, rfl⟩
  · split
    · exact Tries.Only.bind Tries.Only.of_ask fun answered => Tries.Only.of_pure
    · exact Tries.Only.of_pure

theorem mem_sendFragmentDirect {addr : String} {frag piece : Fragment}
    (h : fragmentPieces frag s.subChunkSize = [piece]) :
    .write addr (.chunk (packetOf id sc s.selfID [] piece)) true ∈
      ((s.sendFragmentDirect addr id sc frag).run fun _ => true).done := by
  rw [sendFragmentDirect, h]
  exact mem_cons_self

/-- Some answers let a frame with the blob go out to the address, whether links are tried before or after it. --/
theorem mem_sendRelayHop (nodeID addr : String) (blob : Bytes) :
    .write addr (.relay blob) true ∈ ((s.sendRelayHop nodeID addr blob).run fun n => decide (n ≠ 0)).done := by
  rw [sendRelayHop]
  split
  · rw [sendRelayViaLink]
    split
    · exact mem_append_right _ (mem_append_right _ (mem_append_right _ mem_cons_self))
    · exact mem_append_right _ (mem_append_left _ (mem_append_right _ mem_cons_self))
  · exact mem_append_left _ (mem_append_right _ (mem_append_right _ mem_cons_self))

theorem ForwardCtx.mem_sendFragment {fc : ForwardCtx} {frag piece : Fragment} {first : Hop} {blob : Bytes}
    (hpieces : fragmentPieces frag s.subChunkSize = [piece]) (hpaths : fc.paths = 1)
    (honion : fc.onion s m piece (fc.inner s m piece) 0 = .ok (first, blob)) :
    .write first.address (.relay blob) true ∈ ((fc.sendFragment s m frag).run fun n => decide (n ≠ 0)).done := by
  rw [sendFragment, hpieces, Tries.each, sendPiece, hpaths, show range (1 : Int).toNat = [0] from rfl,
    sendCopies, honion]
  exact mem_append_left _ (mem_append_left _ (mem_append_left _ (mem_sendRelayHop _ _ _)))

theorem length_le_chunkPacket (destGroup destNode : String) (now : Int) (pkt : Packet) :
    pkt.payload.length ≤ marshaledLen (s.chunkPacket [] destGroup destNode now pkt) := by
  rw [chunkPacket, SignedPacket.sign, if_neg (by decide), marshaledLen, length_marshalBinary]
  dsimp only
  omega

section
variable {signKey : Bytes} (hS : s.sigs.Sized signKey) (hkey : signKey.length = 64)
include hS hkey

theorem marshaledLen_chunkPacket (destGroup destNode : String) (now : Int) {pkt : Packet}
    (hreply : pkt.replyBlock = []) :
    marshaledLen (s.chunkPacket signKey destGroup destNode now pkt) = 220 + (strBytes pkt.sourceNode).length +
      (strBytes destGroup).length + (strBytes destNode).length + pkt.payload.length := by
  rw [chunkPacket, marshaledLen_sign hS rfl rfl, if_pos hkey, marshaledLen, length_marshalBinary]
  simp only [SignedPacket.new, hreply, length_nil]
  omega

theorem marshaledLen_relayPacket (now : Int) (blob : Bytes) :
    marshaledLen (s.relayPacket signKey now blob) = 220 + (strBytes s.selfID).length + blob.length := by
  rw [relayPacket, marshaledLen_sign hS rfl rfl, if_pos hkey, marshaledLen, length_marshalBinary]
  simp only [SignedPacket.new, length_strBytes_empty, length_nil]
  omega

end

/-- Names and addresses of at most `names` bytes, and a reply block of at most `reply`. --/
structure ForwardCtx.Within (fc : ForwardCtx) (names hops reply : Nat) : Prop where
  hops : fc.hops = hops
  dest : (strBytes fc.destID).length ≤ names
  peer : ∀ r ∈ fc.destPeer :: fc.relays, (strBytes r.address).length ≤ names ∧ (strBytes r.id).length ≤ names
  reply : fc.replyBlock.length ≤ reply

theorem ForwardCtx.Within.length_onion {fc : ForwardCtx} {names hops reply copyIdx : Nat} {piece : Fragment}
    {first : Hop} {blob : Bytes} (h : fc.Within names hops reply) (hH : s.hybrid.Sized)
    (honion : fc.onion s m piece (fc.inner s m piece) copyIdx = .ok (first, blob)) :
    blob.length ≤ padded s.padCell (124 + (strBytes fc.destID).length + piece.payload.length + fc.replyBlock.length) +
      ((hops + 1) * 73 + hops * (2 * names)) := by
  obtain ⟨path, onionHops, hpath, hhops, hblob, -⟩ := ForwardCtx.onion_ok honion
  obtain ⟨rfl, hover⟩ := buildPathTiered_ok hpath
  rw [Sender.length_onion hH hhops hblob, ForwardCtx.inner, length_buildInnerFragment, length_strBytes_empty]
  refine Nat.add_le_add_left ((layersOf_le names fun hop hhop => ?_).trans ?_) _
  · rcases mem_append.mp hhop with hhop | hhop
    · obtain ⟨r, hr, rfl⟩ := mem_map.mp hhop
      exact h.peer r (mem_cons_of_mem _ (hover.relay r hr).1)
    · rw [mem_singleton.mp hhop]
      exact h.peer _ mem_cons_self
  · have hle := hover.length_le
    have hhops := h.hops
    simp only [pathOf, length_append, length_map, length_singleton, Nat.add_sub_cancel]
    exact Nat.add_le_add (Nat.mul_le_mul_right _ (by omega)) (Nat.mul_le_mul_right _ (by omega))

/-- Every frame is read that the node writes for a fragment, over a connection or to a relay, from a reply block, or
    as an acknowledgement, as long as names, hops and reply blocks are within the bounds. --/
structure Readable (s : Sender) (d : Destination) (names hops reply : Nat) : Prop where
  chunk : ∀ addr id sc frag answers destGroup destNode now, (strBytes destGroup).length ≤ names →
    (strBytes destNode).length ≤ names →
    ∀ pkt ok, .write addr (.chunk pkt) ok ∈ ((s.sendFragmentDirect addr id sc frag).run answers).done →
      marshaledLen (s.chunkPacket d.signKey destGroup destNode now pkt) ≤ maxFrameSize.toNat
  relay : ∀ fc : ForwardCtx, fc.Within names hops reply → ∀ m frag answers now addr blob ok,
    .write addr (.relay blob) ok ∈ ((fc.sendFragment s m frag).run answers).done →
      marshaledLen (s.relayPacket d.signKey now blob) ≤ maxFrameSize.toNat
  answer : ∀ now blob, blob.length ≤ reply → marshaledLen (s.relayPacket d.signKey now blob) ≤ maxFrameSize.toNat
  ack : ∀ node ack, (strBytes node).length ≤ names → d.Emits node ack → marshaledLen ack ≤ maxFrameSize.toNat

/-- There is room for the largest chunk, the largest piece in an onion, and the largest acknowledgement. --/
structure Roomy (s : Sender) (names hops reply : Nat) : Prop where
  chunk : 220 + (strBytes s.selfID).length + 2 * names + s.subChunkSize.toNat ≤ maxFrameSize.toNat
  relay : 220 + (strBytes s.selfID).length + padded s.padCell (124 + names + s.subChunkSize.toNat + reply) +
    ((hops + 1) * 73 + hops * (2 * names)) ≤ maxFrameSize.toNat
  ack : 96 + padded s.padCell (124 + (strBytes s.selfID).length + names) ≤ maxFrameSize.toNat

/-! The largest frames: names of full length, as many relays as there are to be, and a fragment that is one piece. -/

namespace Largest

def name (names i : Nat) : String := goString (beBytes names i)

theorem strBytes_name (names i : Nat) : strBytes (name names i) = beBytes names i := by
  have hid : ∀ x : UInt8, UInt8.ofNat (Char.ofNat x.toNat).toNat = x := by
    intro x
    have hlt := x.toNat_lt
    rw [Char.ofNat, dif_pos (.inl (by omega))]
    exact UInt8.ofNat_toNat
  rw [name, goString, strBytes, String.toList_ofList, map_map]
  exact (map_congr_left fun x _ => hid x).trans (map_id _)

theorem length_name (names i : Nat) : (strBytes (name names i)).length = names := by
  rw [strBytes_name, length_beBytes]

theorem name_inj {names i j : Nat} (hi : i < weight names) (hj : j < weight names) (h : name names i = name names j) :
    i = j := by
  have hnat := congrArg (fun n => beNat (strBytes n)) h
  simpa only [strBytes_name, beNat_beBytes, Nat.mod_eq_of_lt hi, Nat.mod_eq_of_lt hj] using hnat

def peer (names : Nat) (key : Bytes) (i : Nat) : Peer :=
  { id := name names i, address := name names i, active := true, pubKey := key, relayCapable := true }

def context (names hops reply : Nat) (key : Bytes) : ForwardCtx where
  id := FixedBytes.copy 32 []
  sc := {}
  destID := name names 0
  destPeer := peer names key 0
  relays := (range' 1 hops).map (peer names key)
  replyBlock := List.replicate reply 0
  paths := 1
  hops
  exitNear := []

theorem within (names hops reply : Nat) (key : Bytes) : (context names hops reply key).Within names hops reply := by
  refine ⟨rfl, (length_name _ _).le, fun r hr => ?_, length_replicate.le⟩
  obtain ⟨i, rfl⟩ : ∃ i, r = peer names key i := by
    rcases mem_cons.mp hr with rfl | hr
    · exact ⟨0, rfl⟩
    · obtain ⟨i, -, rfl⟩ := mem_map.mp hr
      exact ⟨i, rfl⟩
  exact ⟨(length_name _ _).le, (length_name _ _).le⟩

def fragment (len : Nat) : Fragment := ⟨FixedBytes.copy 32 [], 0, 1, List.replicate len 0, 0, 0, false, 0, 0, false⟩

theorem pieces {len : Nat} {sub : Int} (h : (len : Int) ≤ sub) :
    fragmentPieces (fragment len) sub = [{ fragment len with subIndex := 0, subTotal := 1 }] :=
  if_pos (.inr (by rw [fragment, length_replicate]; exact h))

variable {names hops reply : Nat} {key : Bytes}

theorem path (hnames : 0 < names) (hmany : hops < weight names) (hkey : key ≠ []) (reply : Nat) (piece : Fragment) :
    ∃ picked : List Peer,
    (context names hops reply key).path s piece 0 = .ok (pathOf picked (peer names key 0)) ∧ picked.length = hops ∧
      ∀ r ∈ picked, ∃ i, r = peer names key i := by
  have hdest : name names 0 ≠ "" := by
    intro h
    have hlen := length_name names 0
    rw [h] at hlen
    exact absurd hlen hnames.ne
  have hother : ∀ r ∈ (range' 1 hops).map (peer names key), r.usable = true ∧ r.id ≠ name names 0 := by
    intro r hr
    obtain ⟨i, hi, rfl⟩ := mem_map.mp hr
    rw [mem_range'_1] at hi
    refine ⟨by simp [peer, Peer.usable, length_pos_iff, hkey], fun heq => ?_⟩
    exact absurd (name_inj (by omega) (by omega) heq) (by omega)
  have heligible : eligible (peer names key 0) ((range' 1 hops).map (peer names key)) =
      (range' 1 hops).map (peer names key) :=
    filter_eq_self.mpr fun r hr => by simp [hother r hr, peer]
  have hids : (((range' 1 hops).map (peer names key)).map Peer.id).Nodup := by
    rw [map_map]
    refine List.Nodup.map_on (fun i hi j hj heq => ?_) nodup_range'
    rw [mem_range'_1] at hi hj
    exact name_inj (by omega) (by omega) heq
  refine ⟨planned s.net s.rng (peer names key 0) ((range' 1 hops).map (peer names key)) hops
    ⟨(context names hops reply key).seed piece 0, s.seedHosts, []⟩, ?_, ?_, fun r hr => ?_⟩
  · show buildPathTiered s.net s.rng (peer names key 0) ((range' 1 hops).map (peer names key)) hops _ = _
    rw [buildPathTiered_eq (Int.natCast_nonneg _) ?_, if_neg]
    · rfl
    · exact not_or.mpr ⟨hdest, fun hnil => hkey (length_eq_zero_iff.mp hnil)⟩
    · intro hpos hnil
      rw [heligible] at hnil
      have hlen := congrArg List.length hnil
      simp only [length_map, length_range', length_nil] at hlen
      omega
  · rw [length_planned hids, heligible]
    simp
  · obtain ⟨i, -, rfl⟩ := mem_map.mp (heligible ▸ mem_planned hr)
    exact ⟨i, rfl⟩

theorem onion (hH : s.hybrid.Sized) (hnames : 0 < names) (hmany : hops < weight names) (hkey : key ≠ [])
    (hseals : s.Sealable key) (reply : Nat) (m : Moment) (piece : Fragment) : ∃ first blob,
    (context names hops reply key).onion s m piece ((context names hops reply key).inner s m piece) 0 =
      .ok (first, blob) ∧
      blob.length = padded s.padCell (124 + names + piece.payload.length + reply) +
        ((hops + 1) * 73 + hops * (2 * names)) := by
  obtain ⟨picked, hpath, hlen, hpicked⟩ := path (s := s) hnames hmany hkey reply piece
  have hall : ∀ hop ∈ pathOf picked (peer names key 0), ∃ i, hop = (peer names key i).hop := by
    intro hop hhop
    rcases mem_append.mp hhop with hhop | hhop
    · obtain ⟨r, hr, rfl⟩ := mem_map.mp hhop
      obtain ⟨i, rfl⟩ := hpicked r hr
      exact ⟨i, rfl⟩
    · exact ⟨0, mem_singleton.mp hhop⟩
  have hne : pathOf picked (peer names key 0) ≠ [] := by simp [pathOf]
  obtain ⟨onionHops, blob, hhops, hblob⟩ :=
    exists_onion (m.draw piece 0) ((context names hops reply key).inner s m piece) hne
    fun hop hhop => by
      obtain ⟨i, rfl⟩ := hall hop hhop
      exact hseals
  refine ⟨_, blob, by rw [ForwardCtx.onion, hpath]; simp only [bind, Except.bind, hhops, hblob]; rfl, ?_⟩
  rw [length_onion hH hhops hblob, ForwardCtx.inner, length_buildInnerFragment, layersOf_eq names names]
  · simp [context, pathOf, hlen, length_name, Nat.two_mul]
  · intro hop hhop
    obtain ⟨i, rfl⟩ := hall hop hhop
    exact ⟨length_name _ _, length_name _ _⟩

end Largest

/-- Exactly then a node writes frames that others read: the largest chunk, the largest onion and the largest
    acknowledgement are frames that are not too large. --/
theorem frames_readable {base : Sender} {size padCell : Int} {d : Destination} {names hops reply : Nat} {key : Bytes}
    (hset : s = (base.setSubChunkSize size).setAnonymity padCell)
    (hnode : s.sigs = d.sigs ∧ s.padCell = d.padCell ∧ s.selfID = d.selfID) (hsign : d.signKey.length = 64)
    (hS : d.sigs.Sized d.signKey) (hH : s.hybrid.Sized) (hkey : key ≠ []) (hseals : s.Sealable key) (hnames : 0 < names)
    (hmany : hops < weight names) : s.Readable d names hops reply ↔ s.Roomy names hops reply := by
  obtain ⟨hsigs, hcell, hself⟩ := hnode
  have hsized : s.sigs.Sized d.signKey := hsigs ▸ hS
  have hsub : 0 < s.subChunkSize := by
    rw [hset]
    simp only [setAnonymity, setSubChunkSize, maxSubChunkSize]
    split_ifs <;> omega
  have hbare : ∀ now node id chunkNumber, marshaledLen (d.finishAck { d.newAck now node with id, chunkNumber }) =
      96 + padded s.padCell (124 + (strBytes s.selfID).length + (strBytes node).length) := by
    intro now node id chunkNumber
    rw [Destination.marshaledLen_finishAck hS, if_pos hsign, marshaledLen_padPacket _ rfl, marshaledLen,
      length_marshalBinary, hcell, hself]
    simp [Destination.newAck, SignedPacket.new, Nat.add_comm]
  have hlen : ((Largest.fragment s.subChunkSize.toNat).payload.length : Int) = s.subChunkSize := by
    rw [Largest.fragment, length_replicate]
    omega
  refine ⟨fun h => ⟨?_, ?_, ?_⟩, fun h => ⟨?_, ?_, fun now blob hblob => ?_, fun node ack hname hack => ?_⟩⟩
  · -- A fragment of the size of a piece is written as one chunk.
    have hchunk :=
      h.chunk "" (Largest.fragment 0).transferID {} (Largest.fragment s.subChunkSize.toNat) (fun _ => true) _ _ 0
      (Largest.length_name names 0).le (Largest.length_name names 0).le _ true
        (mem_sendFragmentDirect (Largest.pieces (by omega)))
    rw [marshaledLen_chunkPacket hsized hsign _ _ _ rfl] at hchunk
    simp only [packetOf, applyScheme, Largest.length_name, Largest.fragment, length_replicate] at hchunk
    omega
  · obtain ⟨first, blob, honion, hblob⟩ := Largest.onion hH hnames hmany hkey hseals reply
      (Trio.moment true) { Largest.fragment s.subChunkSize.toNat with subIndex := 0, subTotal := 1 }
    have hrelay := h.relay _ (Largest.within names hops reply key) (Trio.moment true) _ _ 0 _ _ _
      (ForwardCtx.mem_sendFragment (Largest.pieces (by omega)) rfl honion)
    rw [marshaledLen_relayPacket hsized hsign, hblob] at hrelay
    simp only [Largest.fragment, length_replicate] at hrelay
    omega
  · have hack :=
      h.ack (Largest.name names 0) _ (Largest.length_name names 0).le
        (@Destination.Emits.chunk d .new 0 _ 0 _ mem_cons_self)
    rwa [hbare, Largest.length_name] at hack
  · intro addr id sc frag answers destGroup destNode now hgroup hdest pkt ok hwrite
    obtain ⟨piece, hpiece, rfl⟩ := only_sendFragmentDirect answers (fun _ => trivial) _ hwrite ⟨ok, rfl⟩
    have hle := length_piece_le hsub hpiece
    have hroom := h.chunk
    rw [marshaledLen_chunkPacket hsized hsign _ _ _ rfl]
    simp only [packetOf, applyScheme]
    omega
  · intro fc hfc m frag answers now addr blob ok hwrite
    obtain ⟨piece, hpiece, copyIdx, first, blob, honion, hhands⟩ :=
      ForwardCtx.only_sendFragment answers (fun _ => trivial) _ hwrite
    cases hhands
    rw [marshaledLen_relayPacket hsized hsign]
    have hblob := hfc.length_onion hH honion
    have hle := length_piece_le hsub hpiece
    have hpadded := padded_mono s.padCell (show 124 + (strBytes fc.destID).length + piece.payload.length +
      fc.replyBlock.length ≤ 124 + names + s.subChunkSize.toNat + reply by have := hfc.dest; have := hfc.reply; omega)
    have hroom := h.relay
    omega
  · have hroom := h.relay
    have hpadded := le_padded s.padCell (124 + names + s.subChunkSize.toNat + reply)
    rw [marshaledLen_relayPacket hsized hsign]
    omega
  · obtain ⟨now, id, chunkNumber, rfl⟩ := hack.eq_finishAck
    rw [hbare]
    exact (Nat.add_le_add_left (padded_mono _ (by omega)) 96).trans h.ack

namespace Trio

def stacked : Hybrid where
  publicKey key := key
  sealHybrid _ _ plain _ := .ok (List.replicate 60 0 ++ plain)
  openHybrid _ sealed _ := .ok (sealed.drop 60)

theorem stacked_sized : stacked.Sized := by
  intro draw pub plain aad sealed h
  cases h
  rw [length_append, length_replicate]

def signing : Sender := { sender with sigs := Cells.sigs, hybrid := stacked, selfID := (Cells.node 512).selfID }

def large : Fragment := { chunk with payload := List.replicate 9000000 7 }

theorem length_large : large.payload.length = 9000000 := length_replicate

theorem fragmentPieces_large {size : Int} (hsize : 9000000 ≤ size) :
    fragmentPieces large size = [{ large with subIndex := 0, subTotal := 1 }] :=
  if_pos (.inr (length_large ▸ hsize))

end Trio

open Trio in
theorem frames_readable_default : ((signing.setSubChunkSize 0).setAnonymity 512).Readable (Cells.node 512) 64 3 4096 :=
  (frames_readable (s := (signing.setSubChunkSize 0).setAnonymity 512) rfl
    ⟨rfl, rfl, rfl⟩ length_replicate (Cells.sized _)
    stacked_sized (cons_ne_nil 1 []) ⟨_, rfl, fun _ _ => ⟨_, rfl⟩⟩ (by decide) (by decide)).mpr
      ⟨by decide +kernel, by decide +kernel, by decide +kernel⟩

open Trio in
/-- Cells of sixteen megabytes and pieces of nine are accepted. An acknowledgement fills a cell, a piece is a frame, and
    neither is read. --/
theorem frames_unreadable :
    (∃ ack, (Cells.node (signing.setAnonymity 16777216).padCell).Emits "peer" ack ∧
      maxFrameSize.toNat < marshaledLen ack) ∧
    ∃ pkt, .write "a" (.chunk pkt) true ∈
        (((signing.setSubChunkSize 9000000).sendFragmentDirect "a" Transfer.Sample.transferID {} large).run
          fun _ => true).done ∧
      maxFrameSize.toNat < marshaledLen ((signing.setSubChunkSize 9000000).chunkPacket [] "" "d" 0 pkt) := by
  constructor
  · obtain ⟨ack, hack⟩ := Cells.emits (signing.setAnonymity 16777216).padCell
    have hcell := hack.padCell_le (Cells.sized _) (show 0 < (signing.setAnonymity 16777216).padCell by decide)
    exact ⟨ack, hack, Nat.lt_of_lt_of_le (show maxFrameSize.toNat < 16777216 by decide) hcell⟩
  · refine ⟨_, mem_sendFragmentDirect (fragmentPieces_large (by decide)),
      Nat.lt_of_lt_of_le ?_ (length_le_chunkPacket _ _ _ _)⟩
    show maxFrameSize.toNat < large.payload.length
    rw [length_large]
    decide

end Sender

end SyncSwarm.Transfer
