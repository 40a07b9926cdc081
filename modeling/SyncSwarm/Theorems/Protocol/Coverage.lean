import SyncSwarm.Theorems.Protocol.Codec

/-! What a signature covers: every field of a packet but its time, its padding and the signature itself. -/

namespace SyncSwarm.Protocol
open Lib Reader

namespace SignedPacket
variable {p q : SignedPacket}

/-- The packet without the fields that the signature leaves out. --/
def covered (p : SignedPacket) : SignedPacket := { p with timestamp := 0, pad := [], signature := [] }

theorem canonicalBytes_split (p : SignedPacket) : p.canonicalBytes =
    [p.type.code] ++ (p.id.val ++ (lenBytes (strBytes p.sourceNode) ++ (lenBytes (strBytes p.destGroup) ++
      (lenBytes (strBytes p.destNode) ++ (be32 p.chunkNumber ++ (be32 p.totalChunks ++ (be32 p.payloadSize ++
      (be32 p.dataShards ++ (be32 p.parityShards ++ (be64 p.originalLen ++ (be32 p.subIndex ++ (be32 p.subTotal ++
      ([boolByte p.streaming] ++
        (be32 p.blockIndex ++ (be32 p.blockLen ++ ([boolByte p.final] ++ ([boolByte p.hybridSealed] ++
      ([boolByte p.pq] ++ ([boolByte p.resumable] ++ ([boolByte p.isVariable] ++ (lenBytes p.signerKey ++
      (lenBytes p.replyBlock ++ ([boolByte p.decoy] ++ p.payload))))))))))))))))))))))) := by
  unfold canonicalBytes
  simp only [List.append_assoc, List.cons_append, List.nil_append]

/-- No field runs into the next: each has a fixed length or its length before it, and the payload is the last. --/
theorem covered_of_canonicalBytes (hp : p.Proper) (hq : q.Proper) (hps : p.Short) (hqs : q.Short)
    (h : p.canonicalBytes = q.canonicalBytes) : p.covered = q.covered := by
  rw [canonicalBytes_split, canonicalBytes_split] at h
  obtain ⟨hcode, h⟩ := (reads_u8 _).inj (reads_u8 _) h
  obtain ⟨hid, h⟩ := (reads_take (FixedBytes.length_val p.id)).inj (reads_take (FixedBytes.length_val q.id)) h
  obtain ⟨hsource, h⟩ := (reads_string hps.sourceNode hp.sourceNode).inj (reads_string hqs.sourceNode hq.sourceNode) h
  obtain ⟨hgroup, h⟩ := (reads_string hps.destGroup hp.destGroup).inj (reads_string hqs.destGroup hq.destGroup) h
  obtain ⟨hdest, h⟩ := (reads_string hps.destNode hp.destNode).inj (reads_string hqs.destNode hq.destNode) h
  obtain ⟨hchunk, h⟩ := (reads_u32 _).inj (reads_u32 _) h
  obtain ⟨htotal, h⟩ := (reads_u32 _).inj (reads_u32 _) h
  obtain ⟨hsize, h⟩ := (reads_u32 _).inj (reads_u32 _) h
  obtain ⟨hdata, h⟩ := (reads_u32 _).inj (reads_u32 _) h
  obtain ⟨hparity, h⟩ := (reads_u32 _).inj (reads_u32 _) h
  obtain ⟨hlen, h⟩ := (reads_u64 _).inj (reads_u64 _) h
  obtain ⟨hsub, h⟩ := (reads_u32 _).inj (reads_u32 _) h
  obtain ⟨hsubs, h⟩ := (reads_u32 _).inj (reads_u32 _) h
  obtain ⟨hstream, h⟩ := (reads_bool _).inj (reads_bool _) h
  obtain ⟨hblock, h⟩ := (reads_u32 _).inj (reads_u32 _) h
  obtain ⟨hblockLen, h⟩ := (reads_u32 _).inj (reads_u32 _) h
  obtain ⟨hfinal, h⟩ := (reads_bool _).inj (reads_bool _) h
  obtain ⟨hhybrid, h⟩ := (reads_bool _).inj (reads_bool _) h
  obtain ⟨hpq, h⟩ := (reads_bool _).inj (reads_bool _) h
  obtain ⟨hresume, h⟩ := (reads_bool _).inj (reads_bool _) h
  obtain ⟨hvariable, h⟩ := (reads_bool _).inj (reads_bool _) h
  obtain ⟨hkey, h⟩ := (reads_bytes hps.signerKey).inj (reads_bytes hqs.signerKey) h
  obtain ⟨hreply, h⟩ := (reads_bytes hps.replyBlock).inj (reads_bytes hqs.replyBlock) h
  obtain ⟨hdecoy, hpayload⟩ := (reads_bool _).inj (reads_bool _) h
  have htype : p.type = q.type := by rw [← hp.type, hcode, hq.type]
  have hid : p.id = q.id := Subtype.ext hid
  obtain ⟨⟨⟩⟩ := p
  obtain ⟨⟨⟩⟩ := q
  simp_all [covered]

theorem verify_of (S : Signatures) (h : q.verify S = true) : S.verify q.signerKey q.canonicalBytes q.signature = true :=
  (Bool.and_eq_true_iff.mp h).2

end SignedPacket

/-- Packets with the same bytes to sign agree in every field that is covered. So, if the signature of a packet is one
    for its key and its bytes alone, nothing of that can be changed under it; and, if the holder of a key has signed
    the packets `made`, what verifies under the key agrees with one of them. --/
theorem signature_covers {p q : SignedPacket} (hp : p.Proper) (hq : q.Proper) (hps : p.Short) (hqs : q.Short) :
    (p.canonicalBytes = q.canonicalBytes → p.covered = q.covered) ∧
    (∀ S : Signatures, (∀ key msg, S.verify key msg p.signature = true → key = p.signerKey ∧ msg = p.canonicalBytes) →
      q.signature = p.signature → q.verify S = true → q.covered = p.covered) ∧
    ∀ (S : Signatures) (made : List SignedPacket), (∀ m ∈ made, m.Proper ∧ m.Short) →
      (∀ msg sig, S.verify q.signerKey msg sig = true → ∃ m ∈ made, msg = m.canonicalBytes) →
      q.verify S = true → ∃ m ∈ made, q.covered = m.covered := by
  refine ⟨SignedPacket.covered_of_canonicalBytes hp hq hps hqs, fun S hbound hsig hverify => ?_,
    fun S made hmade hsigned hverify => ?_⟩
  · have h := q.verify_of S hverify
    rw [hsig] at h
    exact SignedPacket.covered_of_canonicalBytes hq hp hqs hps (hbound _ _ h).2
  · obtain ⟨m, hm, heq⟩ := hsigned _ _ (q.verify_of S hverify)
    exact ⟨m, hm, SignedPacket.covered_of_canonicalBytes hq (hmade m hm).1 hqs (hmade m hm).2 heq⟩

theorem signature_covers_old : oldPacket.covered = { oldPacket with timestamp := 5, pad := [] }.covered := by
  have hshort : oldPacket.Short := by
    constructor
    all_goals decide
  have hshort' : { oldPacket with timestamp := 5, pad := [] }.Short := by
    constructor
    all_goals decide
  have hproper' : { oldPacket with timestamp := 5, pad := [] }.Proper := by
    constructor
    all_goals decide
  exact (signature_covers oldPacket_proper hproper' hshort hshort').1 rfl

end SyncSwarm.Protocol
