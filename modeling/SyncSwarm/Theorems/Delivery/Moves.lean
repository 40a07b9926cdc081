import SyncSwarm.Theorems.Acks.Moves
import SyncSwarm.Theorems.Ingest.Steps
import SyncSwarm.Transfer.Delivery

/-! What the destination signs, told apart by its bytes, and what a step of confirmed delivery can do. -/

namespace SyncSwarm.Protocol
open Lib List

theorem SignedPacket.canonicalBytes_eq (p : SignedPacket) :
    ∃ rest, p.canonicalBytes = p.type.code :: (p.id.val ++ rest) ∧
    24 ≤ rest.length := by
  unfold canonicalBytes
  simp only [append_assoc, cons_append]
  refine ⟨_, rfl, ?_⟩
  simp only [length_append, length_be32, lenBytes]
  omega

theorem SignedPacket.canonicalBytes_inj {p q : SignedPacket} (h : p.canonicalBytes = q.canonicalBytes) :
    p.type.code = q.type.code ∧ p.id = q.id := by
  obtain ⟨r, hp, -⟩ := p.canonicalBytes_eq
  obtain ⟨s, hq, -⟩ := q.canonicalBytes_eq
  rw [hp, hq] at h
  obtain ⟨hcode, hrest⟩ := List.cons.inj h
  exact ⟨hcode, Subtype.ext (append_inj hrest (by simp)).1⟩

theorem SignedPacket.sign_eq (S : Signatures) (priv : Bytes) (p : SignedPacket) :
    ∃ signerKey signature, p.sign S priv = { p with signerKey, signature } := by
  rw [sign]
  split
  · exact ⟨_, _, rfl⟩
  · exact ⟨p.signerKey, p.signature, rfl⟩

theorem length_strBytes_deriveNodeID (S : Signatures) (key : Bytes) : (strBytes (deriveNodeID S key)).length ≤ 32 := by
  rw [deriveNodeID]
  split
  · decide
  · simp [strBytes, hexString]

end SyncSwarm.Protocol

namespace SyncSwarm.Transfer
open Lib Protocol Fragment List Option

theorem padPacket_eq (padCell : Int) (pkt : SignedPacket) : ∃ pad, padPacket padCell pkt = { pkt with pad } := by
  unfold padPacket
  split
  · exact ⟨pkt.pad, rfl⟩
  · dsimp only
    split <;> exact ⟨_, rfl⟩

namespace Destination
variable {d : Destination}

@[simp] theorem finishAck_id (ack : SignedPacket) : (d.finishAck ack).id = ack.id := by
  obtain ⟨pad, hpad⟩ := padPacket_eq d.padCell ack
  obtain ⟨signerKey, signature, hsign⟩ := SignedPacket.sign_eq d.sigs d.signKey { ack with pad }
  rw [finishAck, hpad, hsign]

theorem answer_names {now : Int} {active : Bool} {ack : Ack} {pkt : SignedPacket}
    (h : d.answer now active ack = some pkt) :
    ∃ node, ack = .direct node pkt.id ∨ ack = .routed node pkt.id := by
  cases ack with
  | reply block => cases h
  | direct node id =>
    simp only [answer, sendAck] at h
    split at h
    · cases h
    · cases h
      exact ⟨node, .inl (by simp)⟩
  | routed node id =>
    simp only [answer, sendRoutedAck] at h
    split at h
    · cases h
    · cases h
      exact ⟨node, .inr (by simp)⟩

theorem connAcks_id {w : Receiver} {now : Int} {source : String} {a : Action} {pkt : SignedPacket}
    (h : pkt ∈ d.connAcks w now source a) :
    pkt.id = d.sigs.sha256 (d.text now) ∧ ((∃ p, a = .connect p) ∨ ∃ c, a = .ack c) := by
  cases a with
  | connect p =>
    obtain rfl := mem_singleton.mp h
    refine ⟨?_, .inl ⟨p, rfl⟩⟩
    rw [finishAck_id]
    split <;> rfl
  | ack c =>
    obtain rfl := mem_singleton.mp h
    exact ⟨by rw [finishAck_id]; rfl, .inr ⟨c, rfl⟩⟩
  | _ => cases h

end Destination

/-- Nothing else that a node signs reads as an acknowledgement: it has another type, begins with the length of a node
    ID, or is too short. --/
theorem Statement.bytes_ne {d : Destination} {m : Statement} (hm : m.Of d) {pkt : SignedPacket}
    (hpkt : pkt.type = .acknowledgement) :
    m.bytes ≠ pkt.canonicalBytes := by
  intro h
  obtain ⟨rest, hcanonical, hrest⟩ := pkt.canonicalBytes_eq
  cases m with
  | packet p => exact hm ((SignedPacket.canonicalBytes_inj h).1.trans (by rw [hpkt]))
  | announce ap =>
    have hid : ap.destHash = d.selfID := hm
    have hlen : (strBytes ap.destHash).length ≤ 32 := by
      rw [hid]
      exact length_strBytes_deriveNodeID d.sigs d.key
    have hfirst : ap.signedBytes.head? = some 0 := by
      have hdigit : (strBytes ap.destHash).length % 4294967296 / weight 3 = 0 := by
        refine Nat.div_eq_of_lt (Nat.lt_of_le_of_lt (Nat.mod_le _ _) (Nat.lt_of_le_of_lt hlen ?_))
        decide
      simp only [AnnouncePayload.signedBytes, lenBytes, be32, beBytes, append_assoc, cons_append, head?_cons,
        UInt32.toNat_ofNat']
      rw [hdigit]
      rfl
    rw [show ap.signedBytes = pkt.canonicalBytes from h, hcanonical, hpkt] at hfirst
    exact absurd (Option.some.inj hfirst) (by decide)
  | linkProof linkID ephPub =>
    have hlen := congrArg List.length (h.trans hcanonical)
    simp only [bytes, length_append, FixedBytes.length_val, length_cons] at hlen
    omega

namespace Delivery
variable {onDelivered : Bool} {iter : GoMap.Iteration TransferID PendingAck} {d : Destination}
  {w u : Delivery} {a : Action}

inductive Brings (d : Destination) : Action → SignedPacket → AckProof → Prop where
  | direct {data pkt} : unmarshalBinary data = some pkt → pkt.verify d.sigs = true → pkt.type = .acknowledgement →
    Brings d (.direct data) pkt (.signed pkt.signerKey)
  | routed {inner pkt} : unmarshalBinary inner = some pkt → pkt.verify d.sigs = true → pkt.type = .acknowledgement →
    Brings d (.routed inner) pkt (.signed pkt.signerKey)
  | onion {inner pkt} : unmarshalBinary inner = some pkt → Brings d (.onion inner) pkt (.token pkt.payload)

/-- What each action can do. --/
inductive Steps (onDelivered : Bool) (iter : GoMap.Iteration TransferID PendingAck) (d : Destination) (w : Delivery) :
    Action → Delivery → Prop where
  | sent {a sender} : (∀ id proof, a ≠ .arrive id proof) → Confirmations.Steps onDelivered iter w.sender a sender →
    Steps onDelivered iter d w (.send a) { w with sender }
  | received {a now source dest} : Receiver.Steps d.cfg d.rs w.dest a dest →
    Steps onDelivered iter d w (.receive a now source) (sign { w with dest } (d.connAcks dest now source a))
  | acknowledged {ack now active} : ack ∈ w.dest.owed →
    Steps onDelivered iter d w (.acknowledge ack now active) (w.sign (d.answer now active ack).toList)
  | stated {m} : m.Of d → Steps onDelivered iter d w (.state m) { w with signed := m.bytes :: w.signed }
  | heard {a pkt proof sender} : Brings d a pkt proof →
    Confirmations.Steps onDelivered iter w.sender (.arrive pkt.id proof) sender →
    Steps onDelivered iter d w a { w with sender }
  | ignored {a : Action} : Steps onDelivered iter d w a w

variable {id : TransferID} {proof : AckProof}

theorem directAck_brings {data : Bytes} (h : directAck d.sigs data = some (id, proof)) :
    ∃ pkt, Brings d (.direct data) pkt proof ∧ pkt.id = id := by
  obtain ⟨pkt, hpkt, h⟩ := bind_eq_some_iff.mp h
  split at h
  next hok =>
    cases h
    exact ⟨pkt, .direct hpkt hok.1 hok.2.2, rfl⟩
  · cases h

theorem routedAck_brings {inner : Bytes} (h : routedAck d.sigs inner = some (id, proof)) :
    ∃ pkt, Brings d (.routed inner) pkt proof ∧ pkt.id = id := by
  obtain ⟨pkt, hpkt, h⟩ := bind_eq_some_iff.mp h
  split at h
  next hok =>
    cases h
    exact ⟨pkt, .routed hpkt hok.2 hok.1, rfl⟩
  · cases h

theorem onionAck_brings {inner : Bytes} (h : onionAck inner = some (id, proof)) :
    ∃ pkt, Brings d (.onion inner) pkt proof ∧ pkt.id = id := by
  obtain ⟨pkt, hpkt, h⟩ := bind_eq_some_iff.mp h
  split at h
  · cases h
    exact ⟨pkt, .onion hpkt, rfl⟩
  · cases h

theorem hear_cases {o : Option (TransferID × AckProof)} (h : w.hear onDelivered iter o = some u)
    (hbrings : ∀ id proof, o = some (id, proof) → ∃ pkt, Brings d a pkt proof ∧ pkt.id = id) :
    Steps onDelivered iter d w a u := by
  cases o with
  | none =>
    cases h
    exact .ignored
  | some e =>
    obtain ⟨id, proof⟩ := e
    rw [hear] at h
    obtain ⟨sender, hsender, rfl⟩ := map_eq_some_iff.mp h
    obtain ⟨pkt, hpkt, rfl⟩ := hbrings id proof rfl
    exact .heard hpkt (Confirmations.step_cases hsender)

theorem step_cases (h : step onDelivered iter d w a = some u) : Steps onDelivered iter d w a u := by
  cases a with
  | send a =>
    cases a with
    | arrive id proof => cases h
    | _ =>
      simp only [step] at h
      obtain ⟨sender, hsender, rfl⟩ := map_eq_some_iff.mp h
      exact .sent (fun _ _ hne => nomatch hne) (Confirmations.step_cases hsender)
  | receive a now source =>
    rw [step] at h
    obtain ⟨dest, hdest, rfl⟩ := map_eq_some_iff.mp h
    exact .received (Receiver.step_cases hdest)
  | acknowledge ack now active =>
    rw [step] at h
    split at h
    next hack =>
      cases h
      exact .acknowledged hack
    · cases h
  | state m =>
    rw [step] at h
    split at h
    next hm =>
      cases h
      exact .stated hm
    · cases h
  | direct data => exact hear_cases h fun _ _ => directAck_brings
  | routed inner => exact hear_cases h fun _ _ => routedAck_brings
  | onion inner => exact hear_cases h fun _ _ => onionAck_brings

end Delivery
end SyncSwarm.Transfer
