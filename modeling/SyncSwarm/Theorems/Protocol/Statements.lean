import SyncSwarm.Theorems.Protocol.Coverage
import SyncSwarm.Transfer.Delivery

/-! What a node signs besides packets: its announces and the proofs of its links. -/

namespace SyncSwarm.Protocol
open Lib Reader List

/-! ### Announces -/

namespace AnnouncePayload
variable {a b : AnnouncePayload} {l l' : List String} {r s : Bytes}

/-- A list of strings as Go has it. The length of each, and their number, fit 32 bits. --/
structure ShortStrings (l : List String) : Prop where
  strings : ∀ s ∈ l, IsGoString s ∧ (strBytes s).length < 4294967296
  length : l.length < 4294967296

/-- What an announce of the source is here, with lengths that fit 32 bits. --/
structure Proper (a : AnnouncePayload) : Prop where
  destHash : IsGoString a.destHash ∧ (strBytes a.destHash).length < 4294967296
  signKey : a.signKey.length < 4294967296
  pubKey : a.pubKey.length < 4294967296
  mlkemPub : a.mlkemPub.length < 4294967296
  capabilities : ShortStrings a.capabilities
  relayIDs : ShortStrings a.relayIDs
  appData : a.appData.length < 4294967296
  low : -9223372036854775808 ≤ a.timestamp
  high : a.timestamp < 9223372036854775808

/-- The announce without the fields that the signature leaves out. --/
def covered (a : AnnouncePayload) : AnnouncePayload := { a with hopCount := 0, signature := [] }

theorem flatMap_inj (hl : ∀ s ∈ l, IsGoString s ∧ (strBytes s).length < 4294967296)
    (hl' : ∀ s ∈ l', IsGoString s ∧ (strBytes s).length < 4294967296) (hlen : l.length = l'.length)
    (h : (l.flatMap fun s => lenBytes (strBytes s)) ++ r = (l'.flatMap fun s => lenBytes (strBytes s)) ++ s) :
    l = l' ∧ r = s := by
  induction l generalizing l' with
  | nil =>
    obtain rfl := length_eq_zero_iff.mp hlen.symm
    exact ⟨rfl, h⟩
  | cons x l ih =>
    cases l' with
    | nil => cases hlen
    | cons x' l' =>
      rw [flatMap_cons, flatMap_cons, append_assoc, append_assoc] at h
      obtain ⟨hx, hlx⟩ := hl x mem_cons_self
      obtain ⟨hx', hlx'⟩ := hl' x' mem_cons_self
      obtain ⟨hhead, htail⟩ := (reads_string hlx hx).inj (reads_string hlx' hx') h
      obtain ⟨hlist, hrest⟩ := ih (fun s hs => hl s (mem_cons_of_mem x hs)) (fun s hs => hl' s (mem_cons_of_mem x' hs))
        (Nat.succ.inj hlen) htail
      exact ⟨by rw [hhead, hlist], hrest⟩

theorem putStrs_inj (hl : ShortStrings l) (hl' : ShortStrings l') (h : putStrs l ++ r = putStrs l' ++ s) :
    l = l' ∧ r = s := by
  rw [putStrs, putStrs, append_assoc, append_assoc] at h
  obtain ⟨hcount, h⟩ := (reads_u32 _).inj (reads_u32 _) h
  have hlen := congrArg UInt32.toNat hcount
  rw [UInt32.toNat_ofNat_of_lt' hl.length, UInt32.toNat_ofNat_of_lt' hl'.length] at hlen
  exact flatMap_inj hl.strings hl'.strings hlen h

theorem length_putStrs (hl : 0 < l.length) : 8 ≤ (putStrs l).length := by
  cases l with
  | nil => cases hl
  | cons x l =>
    simp only [putStrs, putLen, lenBytes, length_append, flatMap_cons, length_be32]
    omega

theorem port_inj {v v' : UInt16} (h : beBytes 2 v.toNat = beBytes 2 v'.toNat) : v = v' := by
  have hnat := congrArg beNat h
  have hlt : ∀ v : UInt16, v.toNat < weight 2 := fun v => v.toNat_lt
  rw [beNat_beBytes, beNat_beBytes, Nat.mod_eq_of_lt (hlt v), Nat.mod_eq_of_lt (hlt v')] at hnat
  exact UInt16.toNat.inj hnat

/-- The two numbers at the end have a fixed length. So whether there is a section of relays before them is a matter
    of how much is left. --/
theorem relays_inj {n n' : Bytes} (hn : n.length = 16) (hn' : n'.length = 16) (hl : ShortStrings l)
    (hl' : ShortStrings l')
    (h : (if 0 < l.length then putStrs l else []) ++ n = (if 0 < l'.length then putStrs l' else []) ++ n') :
    l = l' ∧ n = n' := by
  have hlength := congrArg List.length h
  rw [length_append, length_append, hn, hn'] at hlength
  by_cases hpos : 0 < l.length
  · by_cases hpos' : 0 < l'.length
    · rw [if_pos hpos, if_pos hpos'] at h
      exact putStrs_inj hl hl' h
    · have hlong := length_putStrs hpos
      rw [if_pos hpos, if_neg hpos', length_nil] at hlength
      omega
  · by_cases hpos' : 0 < l'.length
    · have hlong := length_putStrs hpos'
      rw [if_neg hpos, if_pos hpos', length_nil] at hlength
      omega
    · rw [if_neg hpos, if_neg hpos'] at h
      rw [Nat.pos_iff_ne_zero, not_not, length_eq_zero_iff] at hpos hpos'
      exact ⟨hpos.trans hpos'.symm, h⟩

theorem signedBytes_split (a : AnnouncePayload) : a.signedBytes =
    lenBytes (strBytes a.destHash) ++ (lenBytes a.signKey ++ (lenBytes a.pubKey ++ (lenBytes a.mlkemPub ++
      (beBytes 2 a.port.toNat ++ (putStrs a.capabilities ++ (lenBytes a.appData ++
      ((if 0 < a.relayIDs.length then putStrs a.relayIDs else []) ++
        (be64 (UInt64.ofInt a.timestamp) ++ be64 a.nonce)))))))) := by
  unfold signedBytes
  simp only [append_assoc]

theorem covered_of_signedBytes (ha : a.Proper) (hb : b.Proper) (h : a.signedBytes = b.signedBytes) :
    a.covered = b.covered := by
  rw [signedBytes_split, signedBytes_split] at h
  obtain ⟨hdest, h⟩ := (reads_string ha.destHash.2 ha.destHash.1).inj (reads_string hb.destHash.2 hb.destHash.1) h
  obtain ⟨hsign, h⟩ := (reads_bytes ha.signKey).inj (reads_bytes hb.signKey) h
  obtain ⟨hpub, h⟩ := (reads_bytes ha.pubKey).inj (reads_bytes hb.pubKey) h
  obtain ⟨hkem, h⟩ := (reads_bytes ha.mlkemPub).inj (reads_bytes hb.mlkemPub) h
  obtain ⟨hport, h⟩ := (reads_take (length_beBytes 2 _)).inj (reads_take (length_beBytes 2 _)) h
  obtain ⟨hcaps, h⟩ := putStrs_inj ha.capabilities hb.capabilities h
  obtain ⟨happ, h⟩ := (reads_bytes ha.appData).inj (reads_bytes hb.appData) h
  obtain ⟨hrelays, h⟩ := relays_inj (by simp) (by simp) ha.relayIDs hb.relayIDs h
  obtain ⟨htime, hnonce⟩ := (reads_u64 _).inj (reads_u64 _) h
  have hport := port_inj hport
  have htime : a.timestamp = b.timestamp := by
    rw [← toInt_ofInt ha.low ha.high, htime, toInt_ofInt hb.low hb.high]
  have hnonce : a.nonce = b.nonce := by rw [← beNat_be64 a.nonce, hnonce, beNat_be64]
  obtain ⟨⟩ := a
  obtain ⟨⟩ := b
  simp_all [covered]

theorem verifySig_eq (S : Signatures) (h : b.verifySig S = true) :
    S.verify b.signKey b.signedBytes b.signature = true :=
  (Bool.and_eq_true_iff.mp h).2

end AnnouncePayload

/-- Announces with the same bytes to sign agree in every field but the hop count and the signature. So, if the holder
    of a key has signed the announces `made`, what verifies under the key names the relays that one of them names, and
    agrees with it in the rest. --/
theorem announce_covers {a b : AnnouncePayload} (ha : a.Proper) (hb : b.Proper) :
    (a.signedBytes = b.signedBytes → a.covered = b.covered) ∧
    ∀ (S : Signatures) (made : List AnnouncePayload), (∀ m ∈ made, m.Proper) →
      (∀ msg sig, S.verify b.signKey msg sig = true → ∃ m ∈ made, msg = m.signedBytes) →
      b.verifySig S = true → ∃ m ∈ made, b.relayIDs = m.relayIDs ∧ b.covered = m.covered := by
  refine ⟨AnnouncePayload.covered_of_signedBytes ha hb, fun S made hmade hsigned hverify => ?_⟩
  obtain ⟨m, hm, heq⟩ := hsigned _ _ (b.verifySig_eq S hverify)
  have hcovered := AnnouncePayload.covered_of_signedBytes hb (hmade m hm) heq
  have hrelays : b.covered.relayIDs = m.covered.relayIDs := congrArg AnnouncePayload.relayIDs hcovered
  exact ⟨m, hm, hrelays, hcovered⟩

def reserving : AnnouncePayload := { destHash := "node", relayIDs := ["relay"], timestamp := -1, nonce := 7 }

theorem reserving_proper : reserving.Proper := by
  refine ⟨by decide, by decide, by decide, by decide, ⟨nofun, by decide⟩, ⟨?_, by decide⟩, by decide,
    by decide, by decide⟩
  intro s hs
  obtain rfl := mem_singleton.mp hs
  decide

theorem announce_covers_hop : reserving.covered = { reserving with hopCount := 1 }.covered := by
  have h := reserving_proper
  have hforwarded : { reserving with hopCount := 1 }.Proper :=
    ⟨h.destHash, h.signKey, h.pubKey, h.mlkemPub, h.capabilities, h.relayIDs, h.appData, h.low, h.high⟩
  exact (announce_covers h hforwarded).1 rfl

/-! ### Node IDs -/

theorem mem_hexString {b : Bytes} {c : Char} (h : c ∈ (hexString b).toList) :
    ∃ k < 16, c = hexDigit (UInt8.ofNat k) := by
  rw [hexString, String.toList_ofList] at h
  obtain ⟨y, -, hy⟩ := mem_flatMap.mp h
  have hlt := y.toNat_lt
  rcases mem_cons.mp hy with rfl | hy
  · refine ⟨(y / 16).toNat, ?_, by rw [UInt8.ofNat_toNat]⟩
    rw [UInt8.toNat_div]
    exact Nat.div_lt_of_lt_mul hlt
  · refine ⟨(y % 16).toNat, ?_, by rw [UInt8.ofNat_toNat, mem_singleton.mp hy]⟩
    rw [UInt8.toNat_mod]
    exact Nat.mod_lt _ (by decide)

theorem hexString_ne_zero {b : Bytes} {x : UInt8} (h : x ∈ strBytes (hexString b)) : x ≠ 0 := by
  have hdigits : ∀ k < 16, UInt8.ofNat (hexDigit (UInt8.ofNat k)).toNat ≠ 0 := by decide
  rw [strBytes, mem_map] at h
  obtain ⟨c, hc, rfl⟩ := h
  obtain ⟨k, hk, rfl⟩ := mem_hexString hc
  exact hdigits k hk

theorem isGoString_hexString (b : Bytes) : IsGoString (hexString b) := by
  have hdigits : ∀ k < 16, (hexDigit (UInt8.ofNat k)).toNat < 256 := by decide
  intro c hc
  obtain ⟨k, hk, rfl⟩ := mem_hexString hc
  exact hdigits k hk

theorem length_nodeID {S : Signatures} {key : Bytes} (hkey : key.length = 32) :
    deriveNodeID S key = hexString ((S.sha256 key).val.take 16) ∧ (strBytes (deriveNodeID S key)).length = 32 := by
  have hne : ¬key.length = 0 := by rw [hkey]; decide
  rw [deriveNodeID, if_neg hne]
  exact ⟨rfl, by simp [strBytes, hexString]⟩

/-- The timestamp is one that `int64` holds. --/
def AnnouncePayload.Timed (a : AnnouncePayload) : Prop :=
  -9223372036854775808 ≤ a.timestamp ∧ a.timestamp < 9223372036854775808

theorem AnnouncePayload.origin_of_signedBytes {S : Signatures} {a b : AnnouncePayload} (ha : a.verifyBound S = true)
    (hb : b.verifyBound S = true) (hta : a.Timed) (htb : b.Timed) (h : a.signedBytes = b.signedBytes) :
    a.destHash = b.destHash ∧ a.timestamp = b.timestamp ∧ a.nonce = b.nonce := by
  have hid : ∀ c : AnnouncePayload, c.verifyBound S = true → IsGoString c.destHash ∧ (strBytes c.destHash).length <
      4294967296 := by
    intro c hc
    simp only [verifyBound, Bool.and_eq_true, decide_eq_true_eq] at hc
    obtain ⟨⟨-, hderived⟩, hsig⟩ := hc
    have hkey : c.signKey.length = 32 := by
      rw [verifySig, Signatures.verifies, Bool.and_eq_true, Bool.and_eq_true, decide_eq_true_eq] at hsig
      exact hsig.1.1
    obtain ⟨hhex, hlen⟩ := length_nodeID (S := S) hkey
    rw [← hderived]
    exact ⟨hhex ▸ isGoString_hexString _, by omega⟩
  have hends : be64 (UInt64.ofInt a.timestamp) ++ be64 a.nonce = be64 (UInt64.ofInt b.timestamp) ++ be64 b.nonce := by
    rw [signedBytes, signedBytes, append_assoc, append_assoc _ (be64 (UInt64.ofInt b.timestamp))] at h
    exact (append_inj' h (by simp)).2
  obtain ⟨htime, hnonce⟩ := (reads_u64 _).inj (reads_u64 _) hends
  rw [signedBytes_split, signedBytes_split] at h
  refine ⟨((reads_string (hid a ha).2 (hid a ha).1).inj (reads_string (hid b hb).2 (hid b hb).1) h).1, ?_, ?_⟩
  · rw [← toInt_ofInt hta.1 hta.2, htime, toInt_ofInt htb.1 htb.2]
  · rw [← beNat_be64 a.nonce, hnonce, beNat_be64]

/-! ### The three kinds -/

theorem SignedPacket.canonicalBytes_source {p : SignedPacket} (h : (strBytes p.sourceNode).length < 16777216) :
    p.canonicalBytes[33]? = some 0 := by
  have hdigit : (strBytes p.sourceNode).length % 4294967296 / weight 3 = 0 := by
    rw [show weight 3 = 16777216 from rfl]
    exact Nat.div_eq_of_lt (Nat.lt_of_le_of_lt (Nat.mod_le _ _) h)
  have hid : p.id.val.length = 32 := FixedBytes.length_val p.id
  rw [canonicalBytes_split, getElem?_append_right (by simp), length_singleton, getElem?_append_right (by omega), hid,
    lenBytes, be32, beBytes, UInt32.toNat_ofNat', cons_append]
  exact congrArg (fun n => some (UInt8.ofNat n)) hdigit

theorem AnnouncePayload.signedBytes_digit {S : Signatures} {a : AnnouncePayload} (hkey : a.signKey.length = 32)
    (hid : a.destHash = deriveNodeID S a.signKey) : ∃ x, a.signedBytes[33]? = some x ∧ x ≠ 0 := by
  obtain ⟨hhex, hlen⟩ := length_nodeID (S := S) hkey
  rw [← hid] at hhex hlen
  refine ⟨(strBytes a.destHash)[29], ?_, ?_⟩
  · rw [signedBytes_split, lenBytes, append_assoc, getElem?_append_right (by simp), length_be32,
      getElem?_append_left (by omega), getElem?_eq_getElem]
  · refine hexString_ne_zero (b := (S.sha256 a.signKey).val.take 16) ?_
    rw [← hhex]
    exact getElem_mem _

end SyncSwarm.Protocol

namespace SyncSwarm.Transfer
open Lib Protocol List

/-- What a node signs for. --/
inductive Purpose where
  | packet
  | announce
  | linkProof
  deriving DecidableEq

namespace Statement
variable {S : Signatures} {m m' : Statement}

/-- What the statement is for. --/
def purpose : Statement → Purpose
  | packet _ => .packet
  | announce _ => .announce
  | linkProof _ _ => .linkProof

/-- The strings of a packet are not too long, and an announce is bound to its key. --/
def Formed (S : Signatures) : Statement → Prop
  | packet pkt => (strBytes pkt.sourceNode).length < 16777216 ∧ (strBytes pkt.destGroup).length < 16777216 ∧
      (strBytes pkt.destNode).length < 16777216
  | announce ap => ap.signKey.length = 32 ∧ ap.destHash = deriveNodeID S ap.signKey
  | linkProof _ _ => True

theorem length_linkProof (linkID : FixedBytes 16) (ephPub : FixedBytes 32) :
    (linkProof linkID ephPub).bytes.length = 48 := by
  simp [bytes]

theorem length_bytes (hm : m.Formed S) (hpurpose : m.purpose ≠ .linkProof) : 48 < m.bytes.length := by
  cases m with
  | packet pkt =>
    clear hm
    simp only [bytes, SignedPacket.canonicalBytes_split, lenBytes, length_append, length_singleton, length_be32,
      FixedBytes.length_val]
    omega
  | announce ap =>
    have hlen := (length_nodeID (S := S) hm.1).2
    rw [← hm.2] at hlen
    simp only [bytes, AnnouncePayload.signedBytes_split, lenBytes, length_append, length_be32, hlen, hm.1]
    omega
  | linkProof => exact absurd rfl hpurpose

theorem packet_ne_announce {pkt : SignedPacket} {ap : AnnouncePayload} (hpkt : (packet pkt).Formed S)
    (hap : (announce ap).Formed S) :
    (packet pkt).bytes ≠ (announce ap).bytes := by
  intro h
  obtain ⟨x, hx, hne⟩ := ap.signedBytes_digit hap.1 hap.2
  have hzero := SignedPacket.canonicalBytes_source hpkt.1
  rw [show pkt.canonicalBytes = ap.signedBytes from h, hx] at hzero
  exact hne (Option.some.inj hzero)

theorem purpose_of_bytes (hm : m.Formed S) (hm' : m'.Formed S) (h : m.bytes = m'.bytes) : m.purpose = m'.purpose := by
  have hlength := congrArg List.length h
  cases m with
  | packet pkt =>
    cases m' with
    | packet => rfl
    | announce ap => exact absurd h (packet_ne_announce hm hm')
    | linkProof linkID ephPub =>
      have hlong := length_bytes hm nofun
      rw [hlength, length_linkProof] at hlong
      omega
  | announce ap =>
    cases m' with
    | packet pkt => exact absurd h.symm (packet_ne_announce hm' hm)
    | announce => rfl
    | linkProof linkID ephPub =>
      have hlong := length_bytes hm nofun
      rw [hlength, length_linkProof] at hlong
      omega
  | linkProof linkID ephPub =>
    by_contra hne
    have hlong := length_bytes hm' fun heq => hne heq.symm
    rw [← hlength, length_linkProof] at hlong
    omega

end Statement

/-- No bytes are those of two kinds of statements. So, if a signature is one of the bytes of a statement alone, it is
    not taken for the signature of a statement of another kind. --/
theorem signatures_separate {S : Signatures} {m m' : Statement} (hm : m.Formed S) (hm' : m'.Formed S)
    (hpurpose : m.purpose ≠ m'.purpose) :
    m.bytes ≠ m'.bytes ∧
    ∀ key sig, (∀ msg, S.verifies key msg sig = true → msg = m.bytes) → S.verifies key m'.bytes sig = false := by
  have hne : m.bytes ≠ m'.bytes := fun h => hpurpose (Statement.purpose_of_bytes hm hm' h)
  refine ⟨hne, fun key sig hbound => ?_⟩
  rw [Bool.eq_false_iff]
  exact fun hverifies => hne (hbound _ hverifies).symm

theorem signatures_separate_proof :
    (Statement.packet oldPacket).bytes ≠ (Statement.linkProof default default).bytes := by
  have hpkt : (Statement.packet oldPacket).Formed ⟨fun _ => default, id, fun _ _ => [], fun _ _ _ => false⟩ := by
    refine ⟨?_, ?_, ?_⟩ <;> decide
  have hproof :
      (Statement.linkProof default default).Formed ⟨fun _ => default, id, fun _ _ => [], fun _ _ _ => false⟩ := trivial
  exact (signatures_separate hpkt hproof (by decide)).1

end SyncSwarm.Transfer
