import SyncSwarm.Theorems.Protocol.Codec
import SyncSwarm.Theorems.Resource.Copy
import SyncSwarm.Theorems.Resource.Moves
import SyncSwarm.Link.Frames

/-! The frames of a link fit the medium. -/

namespace SyncSwarm.Link
open Lib Protocol List

/-- The lengths of X25519 keys and Ed25519 signatures, and of the tag of AES-GCM. --/
structure Crypto.Sized (C : Crypto) : Prop where
  publicKey : ∀ priv, (C.publicKey priv).length = 32
  sign : ∀ priv msg, (C.sign priv msg).length = 64
  gcmSeal : ∀ key nonce plain, (C.gcmSeal key nonce plain).length = 16 + plain.length

/-! ### What is sealed -/

/-- What the calls of a link and of its router hand to `Send`, with chunks for the MTU: the chunks of a message or of
    a blob, the frames of the sender of a resource at any time, and those of a receiver. --/
inductive Sealed (mtu : Int) : Bytes → Prop where
  | message {send drawn data f} :
    f ∈ (sendMessageChunks send drawn (Int64.ofInt (maxChunkForMTU mtu)) data).1 → Sealed mtu f
  | router {send drawn sub data f} : f ∈ (routerSend send drawn sub (maxChunkForMTU mtu) data).1 → Sealed mtu (sub :: f)
  | resource {sha256 id data} {new s : ResourceSender} {f} :
    newResourceSender sha256 id data (resourcePartSize (maxChunkForMTU mtu)) 0 0 = .ok new → new.Continues s →
    (∃ now, f ∈ (s.start now).2 ∨ f ∈ (s.tick now).2 ∨ ∃ ack, f ∈ (s.feed ack now).2) → Sealed mtu (subResource :: f)
  | receiver {sha256 frame now order f} {r : ResourceReceiver} : f ∈ (r.feed sha256 frame now order).sent →
    Sealed mtu (subResource :: f)

section
variable {mtu : Int}

theorem maxChunkForMTU_bounds (mtu : Int) : 64 ≤ maxChunkForMTU mtu ∧ maxChunkForMTU mtu ≤ 32768 := by
  simp only [maxChunkForMTU, maxMessageChunk, minMessageChunk]
  split_ifs <;> omega

theorem maxChunkForMTU_le (h : 386 ≤ mtu) : 4 * maxChunkForMTU mtu + 900 ≤ 3 * mtu := by
  by_cases hmtu : mtu < 44000
  · have hint : int64 ((mtu - linkFrameOverhead) * 3) = (mtu - 300) * 3 :=
      Int.bmod_eq_of_le (by simp [linkFrameOverhead]; omega)
      (by simp [linkFrameOverhead]; omega)
    have hdiv : ((mtu - 300) * 3).tdiv 4 = (mtu - 300) * 3 / 4 := Int.tdiv_eq_ediv_of_nonneg (by omega)
    simp only [maxChunkForMTU, hint, hdiv, maxMessageChunk, minMessageChunk]
    split_ifs <;> omega
  · have := (maxChunkForMTU_bounds mtu).2
    omega

theorem mem_of_sendAll {send : Bytes → Option String} {frames : List Bytes} {f : Bytes}
    (h : f ∈ (sendAll send frames).1) : f ∈ frames := by
  induction frames with
  | nil => cases h
  | cons frame frames ih =>
    rw [sendAll] at h
    split at h
    · exact mem_singleton.mp h ▸ mem_cons_self
    · exact (mem_cons.mp h).elim (fun h => h ▸ mem_cons_self) fun h => mem_cons_of_mem frame (ih h)

theorem length_chunk_le {send : Bytes → Option String} {drawn : Except String MsgID} {chunk : Int} {data f : Bytes}
    (hpos : 1 ≤ chunk) (hmax : chunk ≤ 32768) (h : f ∈ (sendMessageChunks send drawn (Int64.ofInt chunk) data).1) :
    (f.length : Int) ≤ 12 + chunk := by
  have hchunk : (Int64.ofInt chunk).toInt = chunk := Int64.toInt_ofInt_of_le (by omega) (by omega)
  cases drawn with
  | error err => cases h
  | ok msgID =>
    simp only [sendMessageChunks, hchunk, if_neg (show ¬chunk < 1 by omega)] at h
    split at h
    · cases h
    · obtain ⟨i, -, rfl⟩ := mem_map.mp (mem_of_sendAll h)
      have hid : msgID.val.length = 8 := msgID.property
      have htake := length_take_le chunk.toNat (data.drop (i * chunk.toNat))
      simp only [messageFrame, length_append, hid, length_be16]
      omega

theorem length_part_le {sha256 : Bytes → Hash} {id : ResID} {data : Bytes} {partSize : Int} {s : ResourceSender}
    (h : newResourceSender sha256 id data partSize 0 0 = .ok s) (i : Nat) :
    ((s.parts.getD i []).length : Int) ≤ partSize := by
  have hnew := newResourceSender_ok h
  have hpos := hnew.size_pos
  rw [hnew.parts, resourceParts, getD_eq_getElem?_getD]
  cases hpart : (if data.length = 0 then [[]] else chunks partSize.toNat data)[i]? with
  | none => exact Int.le_of_lt hpos
  | some part =>
    have hmem := mem_of_getElem? hpart
    split at hmem
    · rw [mem_singleton.mp hmem]
      exact Int.le_of_lt hpos
    · have := length_le_of_mem_chunks hmem
      simp only [Option.getD_some]
      omega

theorem length_sent_le {sha256 : Bytes → Hash} {r : ResourceReceiver} {frame : Bytes} {now : Int} {order : List ResID}
    {f : Bytes} (h : f ∈ (r.feed sha256 frame now order).sent) : f.length ≤ 54 := by
  have hdone : ∀ id : ResID, (encodeDone id).length = 17 := fun id => congrArg Nat.succ id.property
  have hack : ∀ (id : ResID) (st : RecvState),
      (encodeAck id (UInt32.ofNat st.base) st.ackBitmapLocked).length ≤ 54 := by
    intro id st
    have hid : id.val.length = 16 := id.property
    have hbitmap := st.length_ackBitmapLocked_le
    rw [maxAckBitmapBytes] at hbitmap
    simp only [encodeAck, length_cons, length_append, hid, length_be32]
    omega
  rw [ResourceReceiver.feed] at h
  split at h
  · cases h
  split at h
  · cases h
  split at h
  swap
  · cases h
  rw [ResourceReceiver.onPart] at h
  split at h
  · cases h
  rw [ResourceReceiver.receivePart] at h
  split at h
  · split at h
    · rw [mem_singleton.mp h, hdone]
      omega
    · cases h
  · split at h
    · cases h
    rw [ResourceReceiver.acknowledge] at h
    split at h
    · rcases mem_cons.mp h with rfl | h
      · exact hack _ _
      · rw [mem_singleton.mp h, hdone]
        omega
    · rw [mem_singleton.mp h]
      exact hack _ _

theorem Sealed.length_le {plain : Bytes} (h : Sealed mtu plain) : (plain.length : Int) ≤ 12 + maxChunkForMTU mtu := by
  obtain ⟨hmin, hmax⟩ := maxChunkForMTU_bounds mtu
  cases h with
  | message h => exact length_chunk_le (by omega) hmax h
  | router h =>
    have := length_chunk_le (by omega) (by omega) h
    rw [length_cons]
    omega
  | @resource sha256 id data new s f hnew hcont hsent =>
    have hsends : new.Sends f := by
      obtain ⟨now, h | h | ⟨ack, h⟩⟩ := hsent
      · exact hcont.sends.mp (ResourceSender.sends_of_mem_start h)
      · exact .inr (hcont.sendsPart.mp (ResourceSender.sendsPart_of_mem_tick h))
      · exact .inr (hcont.sendsPart.mp (ResourceSender.sendsPart_of_mem_feed h))
    have hid : new.id.val.length = 16 := new.id.property
    have hwhole : new.whole.val.length = 32 := new.whole.property
    rcases hsends with rfl | ⟨i, -, rfl⟩
    · simp only [ResourceSender.advFrame, encodeAdv, length_cons, length_append, hid, hwhole, length_be32]
      omega
    · have hpart := length_part_le hnew i
      rw [resourcePartSize, resourceFrameOverhead, resIDLen] at hpart
      rw [if_neg (by omega)] at hpart
      simp only [ResourceSender.partFrame, encodePart, length_cons, length_append, hid, length_be32]
      omega
  | receiver h =>
    have := length_sent_le h
    rw [length_cons]
    omega

end

/-! ### Frames -/

theorem LinkPacket.length_frame (S : Signatures) (text : Int → Bytes) (now : Int) (p : LinkPacket) :
    (p.frame S text now).length = 127 + p.json.length := by
  rw [LinkPacket.frame, length_marshalBinary]
  simp only [SignedPacket.new, length_nil]
  show 124 + 0 + 3 + 0 + _ + 0 + 0 + 0 + 0 = _
  omega

theorem LinkPacket.length_request_le (req : RequestPayload) :
    (LinkPacket.request req).json.length ≤ 88 + (req.ephPub.length + 2) / 3 * 4 := by
  have hid : req.linkID.val.length = 16 := req.linkID.property
  have harray := Json.length_array_le req.linkID.val
  simp [LinkPacket.json, Json.object, Json.separated, Json.quoted, Json.length_slice]
  omega

theorem LinkPacket.length_proof_le (pr : ProofPayload) :
    (LinkPacket.proof pr).json.length ≤ 103 + (pr.ephPub.length + 2) / 3 * 4 + (pr.signature.length + 2) / 3 * 4 := by
  have hid : pr.linkID.val.length = 16 := pr.linkID.property
  have harray := Json.length_array_le pr.linkID.val
  simp [LinkPacket.json, Json.object, Json.separated, Json.quoted, Json.length_slice]
  simp only [← Nat.add_assoc]
  omega

theorem LinkPacket.length_data_le (d : DataPayload) :
    (LinkPacket.data d).json.length ≤ 99 + (d.nonce.length + 2) / 3 * 4 + (d.cipher.length + 2) / 3 * 4 := by
  have hid : d.linkID.val.length = 16 := d.linkID.property
  have harray := Json.length_array_le d.linkID.val
  simp [LinkPacket.json, Json.object, Json.separated, Json.quoted, Json.length_slice]
  simp only [← Nat.add_assoc]
  omega

/-- What a node writes on a link of which the medium takes `mtu` bytes: a request and a proof of the handshake,
    and what `Send` seals. --/
inductive Written (C : Crypto) (mtu : Int) : LinkPacket → Prop where
  | request {id eph} : Written C mtu (.request ⟨id, C.publicKey eph⟩)
  | proof {self eph req aead pr} : answer C self eph req = some (aead, pr) → Written C mtu (.proof pr)
  | data {η : Type} {l : Link η} {plain} : Sealed mtu plain → Written C mtu (.data (l.send C plain).2)

/-- Whatever the links write fits an MTU of 386 bytes or more. --/
theorem link_frames_fit {C : Crypto} (hC : C.Sized) (S : Signatures) (text : Int → Bytes) (now : Int) {mtu : Int}
    (hmtu : 386 ≤ mtu) {p : LinkPacket} (hp : Written C mtu p) : ((p.frame S text now).length : Int) ≤ mtu := by
  rw [p.length_frame]
  cases hp with
  | @request id eph =>
    have := LinkPacket.length_request_le ⟨id, C.publicKey eph⟩
    rw [hC.publicKey] at this
    omega
  | @proof self eph req aead pr h =>
    obtain ⟨-, -, ⟨⟩⟩ := Option.map_eq_some_iff.mp h
    have := LinkPacket.length_proof_le
      ⟨req.linkID, C.publicKey eph, C.sign self (proofTranscript req.linkID (C.publicKey eph))⟩
    rw [hC.publicKey, hC.sign] at this
    omega
  | @data η l plain h =>
    have hplain := h.length_le
    have hchunk := maxChunkForMTU_le hmtu
    have := LinkPacket.length_data_le (l.send C plain).2
    have hcipher : (l.send C plain).2.cipher.length = 16 + plain.length := hC.gcmSeal _ _ _
    have hnonce : (l.send C plain).2.nonce.length = 12 := rfl
    rw [hcipher, hnonce] at this
    omega

namespace Fitting

def crypto : Crypto where
  publicKey _ := replicate 32 9
  ecdh _ _ := some (replicate 32 1)
  sign _ _ := replicate 64 2
  verify _ _ _ := true
  hkdf _ _ _ n := replicate n 3
  gcmSeal _ _ plain := replicate 16 4 ++ plain
  gcmOpen _ _ cipher := some (cipher.drop 16)

theorem sized : crypto.Sized where
  publicKey _ := length_replicate
  sign _ _ := length_replicate
  gcmSeal _ _ _ := by rw [crypto, length_append, length_replicate]

def sigs : Signatures := ⟨FixedBytes.copy 32, fun _ => [], fun _ _ => [], fun _ _ _ => true⟩

def msgID : MsgID := ⟨replicate 8 7, rfl⟩
def link : Link Unit := ⟨⟨⟨replicate 16 200, rfl⟩, replicate 32 5, true, ()⟩, "peer", none, 0, none⟩

end Fitting

open Fitting in
theorem link_frames_fit_386 :
    (((LinkPacket.data (link.send crypto (messageFrame msgID 0 1 [104, 105])).2).frame sigs
      (fun _ => []) 0).length : Int) ≤ 386 :=
  link_frames_fit sized sigs (fun _ => []) 0 (by decide)
    (.data (@Sealed.message 386 (fun _ => none) (.ok msgID) [104, 105] _ (by decide +kernel)))

end SyncSwarm.Link
