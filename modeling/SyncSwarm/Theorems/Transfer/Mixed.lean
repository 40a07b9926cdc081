import SyncSwarm.Theorems.Transfer.RoundTrip

/-! Several attempts to send the same fragments, which may cut them to different sizes. -/

namespace SyncSwarm.Transfer
open Lib Protocol Fragment List Option

theorem buildFragments_index {t : Config} {rs : ReedSolomon} {id : TransferID} {data : Bytes} {isVariable : Bool}
    {sealer : Option Sealer} {frags : List Fragment} {sc : Scheme}
    (h : t.buildFragments rs id data isVariable sealer = .ok (frags, sc)) (i : Nat) (frag : Fragment)
    (hi : frags[i]? = some frag) :
    frag.index = UInt32.ofNat i := by
  have hsealed : ∀ {s : Sealer} {draw : Nat} {what : String} {total : UInt32} {parts : List Bytes},
      sealParts s draw id what total 0 parts = .ok frags → frag.index = UInt32.ofNat i := by
    intro s draw what total parts hseal
    obtain ⟨part, -, hindex, -⟩ := (sealParts_spec hseal).2 i frag hi
    rwa [Nat.zero_add] at hindex
  have hchunks : (t.buildChunks id data sealer).map (fun frags => (frags, ({ isVariable } : Scheme))) =
    .ok (frags, sc) →
      frag.index = UInt32.ofNat i := by
    intro h
    obtain ⟨frags', hfrags, heq⟩ := map_eq_ok.mp h
    obtain ⟨rfl, -⟩ := Prod.mk.inj heq
    cases sealer with
    | none =>
      cases hfrags
      exact ((fragmentsOf_plain id _).place i frag hi).index
    | some s =>
      by_cases hsize : 0 < t.maxChunkSize
      · simp only [Config.buildChunks, newFragmenter, dif_pos hsize] at hfrags
        exact hsealed hfrags
      · simp only [Config.buildChunks, newFragmenter, dif_neg hsize] at hfrags
        cases hfrags
  rw [Config.buildFragments] at h
  split at h
  · split at h
    next out hout =>
      obtain rfl := Except.ok.inj h
      simp only [Config.buildShards, bind_eq_ok, pure_eq_ok, Prod.mk.injEq] at hout
      obtain ⟨f, -, ⟨frags', origLen⟩, hfrag, rfl, -⟩ := hout
      obtain ⟨-, shards, -, hseal⟩ := RSFragmenter.fragment_seals hfrag
      exact hsealed hseal
    · exact hchunks h
  · exact hchunks h

/-! ### An index -/

namespace Buffers
variable {b : Buffers} {ps : List Bytes} {k : Nat} {i : UInt32} {pkt : Packet} {payload : Bytes}

def Partly (ps : List Bytes) (b : Buffers) (i : UInt32) : Prop :=
  b.chunks.get? i = none → ∃ got, ¬Whole ps got ∧ Holds ps got b i

theorem Partly.other (h : Partly ps b i) (hi : i ≠ pkt.chunkNumber) : Partly ps (b.record pkt) i := by
  intro hnone
  rw [(b.record_other hi).1] at hnone
  obtain ⟨got, hmissing, hholds⟩ := h hnone
  exact ⟨got, hmissing, hholds.other hi⟩

theorem chunks_record_some (h : (b.absorbSubChunk pkt).1 = some payload) :
    (b.record pkt).chunks.get? pkt.chunkNumber = some payload := by
  rw [(record_some (m := (b.absorbSubChunk pkt).2) (by rw [← h])).1, GoMap.get?_set_self]

theorem Partly.of_reported (h : (b.absorbSubChunk pkt).1 = some payload) :
    Partly ps (b.record pkt) pkt.chunkNumber := by
  intro hnone
  rw [chunks_record_some h] at hnone
  cases hnone

theorem Partly.of_whole (h : b.chunks.get? pkt.chunkNumber ≠ none) : Partly ps (b.record pkt) pkt.chunkNumber := by
  intro hnone
  rw [(record_none (absorb_received (isSome_iff_ne_none.mpr h))).1] at hnone
  exact absurd hnone h

theorem absorb_whole (hsub : pkt.subTotal ≤ 1) (h : (b.absorbSubChunk pkt).1 = some payload) :
    payload = pkt.payload := by
  by_cases hnone : b.chunks.get? pkt.chunkNumber = none
  · rw [absorb_single hnone hsub] at h
    exact (Option.some.inj h).symm
  · rw [absorb_received (isSome_iff_ne_none.mpr hnone)] at h
    cases h

theorem Partly.whole (hsub : pkt.subTotal ≤ 1) : Partly ps (b.record pkt) pkt.chunkNumber := by
  by_cases hnone : b.chunks.get? pkt.chunkNumber = none
  · have hreported : (b.absorbSubChunk pkt).1 = some pkt.payload := by rw [absorb_single hnone hsub]
    exact .of_reported hreported
  · exact .of_whole hnone

theorem Partly.piece (h : Partly ps b pkt.chunkNumber) (hn : ps.length < 4294967296) (hk : Carries ps k pkt) :
    Partly ps (b.record pkt) pkt.chunkNumber ∧ ∀ payload, (b.absorbSubChunk pkt).1 = some payload →
      payload = ps.flatten := by
  by_cases hnone : b.chunks.get? pkt.chunkNumber = none
  · obtain ⟨got, hmissing, hholds⟩ := h hnone
    by_cases hafter : Whole ps (k :: got)
    · obtain ⟨m, hm⟩ := hholds.absorb_last hn hk hmissing hafter
      have hreported : (b.absorbSubChunk pkt).1 = some ps.flatten := by rw [hm]
      refine ⟨.of_reported hreported, fun payload hpayload => ?_⟩
      rw [hm] at hpayload
      exact (Option.some.inj hpayload).symm
    · refine ⟨fun _ => ⟨k :: got, hafter, hholds.own hn hk⟩, fun payload hpayload => ?_⟩
      rw [hholds.absorb_more hn hk hafter] at hpayload
      cases hpayload
  · refine ⟨.of_whole hnone, fun payload hpayload => ?_⟩
    rw [absorb_received (isSome_iff_ne_none.mpr hnone)] at hpayload
    cases hpayload

theorem partly_empty (hne : ps ≠ []) (i : UInt32) : Partly ps .empty i := by
  have hnot : ¬Whole ps [] := fun hw => not_mem_nil (hw 0 (length_pos_iff.mpr hne))
  refine fun _ => ⟨[], hnot, fun hw => absurd hw hnot, fun _ => GoMap.get?_empty i, fun _ j => ?_⟩
  simp [piecesOf, empty]

end Buffers

/-! ### All the attempts -/

theorem length_fragmentPieces (frag : Fragment) (sub : Int) :
    (fragmentPieces frag sub).length = (pieceParts frag sub).length := by
  rw [fragmentPieces_eq, length_mapIdx]

/-- A packet that arrives, and the size to which the attempt that sent it cuts. --/
structure Arrival where
  sub : Int
  pkt : Packet

section
variable {id : TransferID} {sc : Scheme} {frags : List Fragment} {arrivals : List Arrival} {a : Arrival}
  {cut : Nat → Int}

/-- The packet is one of those that the transfer is sent in. --/
def Arrival.Sent (id : TransferID) (sc : Scheme) (frags : List Fragment) (a : Arrival) : Prop :=
  a.pkt ∈ packetsOf id sc a.pkt.sourceNode a.pkt.replyBlock a.sub frags

/-- Two pieces of one fragment are of one size. A fragment that comes whole is no piece. --/
def OneSize (arrivals : List Arrival) : Prop :=
  ∀ a ∈ arrivals, ∀ b ∈ arrivals, a.pkt.chunkNumber = b.pkt.chunkNumber → 1 < a.pkt.subTotal →
    1 < b.pkt.subTotal → a.sub = b.sub

instance : Decidable (a.Sent id sc frags) := inferInstanceAs (Decidable (_ ∈ _))

instance : Decidable (OneSize arrivals) := inferInstanceAs (Decidable (∀ a ∈ arrivals, ∀ b ∈ arrivals, _))

def pieceSize (arrivals : List Arrival) (i : Nat) : Int :=
  ((arrivals.find? fun a => a.pkt.chunkNumber = UInt32.ofNat i && 1 < a.pkt.subTotal).map Arrival.sub).getD 0

theorem OneSize.sub_eq {i : Nat} (h : OneSize arrivals) (ha : a ∈ arrivals) (hi : a.pkt.chunkNumber = UInt32.ofNat i)
    (hsub : 1 < a.pkt.subTotal) : a.sub = pieceSize arrivals i := by
  cases hfind : arrivals.find? fun a => a.pkt.chunkNumber = UInt32.ofNat i && 1 < a.pkt.subTotal with
  | none => exact absurd (find?_eq_none.mp hfind a ha) (by simp [hi, hsub])
  | some b =>
    have hb := find?_some hfind
    simp only [Bool.and_eq_true, decide_eq_true_eq] at hb
    rw [pieceSize, hfind]
    exact h a ha b (mem_of_find?_eq_some hfind) (hi.trans hb.1.symm) hsub hb.2

theorem length_pieceSize {i : Nat} {frag : Fragment}
    (hpieces : ∀ a ∈ arrivals, (fragmentPieces frag a.sub).length < 4294967296) :
    (pieceParts frag (pieceSize arrivals i)).length < 4294967296 := by
  cases hfind : arrivals.find? fun a => a.pkt.chunkNumber = UInt32.ofNat i && 1 < a.pkt.subTotal with
  | none =>
    rw [pieceSize, hfind, pieceParts]
    simp
  | some b =>
    rw [pieceSize, hfind, ← length_fragmentPieces]
    exact hpieces b (mem_of_find?_eq_some hfind)

structure Agrees (frags : List Fragment) (cut : Nat → Int) (pkt : Packet) (i : Nat) (frag : Fragment) : Prop where
  place : frags[i]? = some frag
  index : pkt.chunkNumber = UInt32.ofNat i
  carries : pkt.subTotal ≤ 1 ∧ pkt.payload = frag.payload ∨ ∃ k, Carries (pieceParts frag (cut i)) k pkt

theorem Arrival.Sent.agrees (h : a.Sent id sc frags)
    (hindex : ∀ i frag, frags[i]? = some frag → frag.index = UInt32.ofNat i)
    (hpieces : ∀ frag ∈ frags, (fragmentPieces frag a.sub).length < 4294967296) (hone : OneSize arrivals)
    (ha : a ∈ arrivals) :
    ∃ i frag, Agrees frags (pieceSize arrivals) a.pkt i frag := by
  obtain ⟨i, frag, k, part, hfrag, hpart, heq⟩ := mem_packetsOf.mp h
  have hi : a.pkt.chunkNumber = UInt32.ofNat i := by
    rw [heq]
    exact hindex i frag hfrag
  have hcarries : Carries (pieceParts frag a.sub) k a.pkt := by
    rw [heq]
    exact ⟨hpart, rfl, rfl⟩
  refine ⟨i, frag, hfrag, hi, ?_⟩
  by_cases hsub : 1 < a.pkt.subTotal
  · exact .inr ⟨k, hone.sub_eq ha hi hsub ▸ hcarries⟩
  · have hle : a.pkt.subTotal ≤ 1 := UInt32.not_lt.mp hsub
    have hlen : (pieceParts frag a.sub).length < 4294967296 :=
      length_fragmentPieces frag a.sub ▸ hpieces frag (mem_of_getElem? hfrag)
    have hone : (pieceParts frag a.sub).length = 1 := by
      rw [hcarries.subTotal] at hle
      have hpos := length_pos_iff.mpr (pieceParts_ne_nil frag a.sub)
      have hle : (pieceParts frag a.sub).length ≤ 1 := (UInt32.ofNat_le_iff_le hlen (by decide)).mp hle
      omega
    obtain ⟨p, hp⟩ := length_eq_one_iff.mp hone
    have hwhole : p = frag.payload := by rw [← flatten_pieceParts frag a.sub, hp, flatten_singleton]
    rw [hp] at hcarries
    obtain ⟨hlt, hpayload⟩ := List.getElem?_eq_some_iff.mp hcarries.part
    obtain rfl : k = 0 := by simpa using hlt
    exact .inl ⟨hle, hpayload.symm.trans hwhole⟩

theorem Agrees.record {pkt : Packet} {i : Nat} {frag : Fragment} {b : Buffers} (h : Agrees frags cut pkt i frag)
    (hfew : frags.length < 4294967296) (hlen : (pieceParts frag (cut i)).length < 4294967296)
    (hb : ∀ j g, frags[j]? = some g → b.Partly (pieceParts g (cut j)) (UInt32.ofNat j)) :
    (∀ j g, frags[j]? = some g → (b.record pkt).Partly (pieceParts g (cut j)) (UInt32.ofNat j)) ∧
      ∀ payload, (b.absorbSubChunk pkt).1 = some payload → payload = frag.payload := by
  have hlt : ∀ {j : Nat} {g : Fragment}, frags[j]? = some g → j < 4294967296 := fun hj =>
    Nat.lt_trans (lt_of_getElem? hj) hfew
  have hown : (b.record pkt).Partly (pieceParts frag (cut i)) pkt.chunkNumber ∧
      ∀ payload, (b.absorbSubChunk pkt).1 = some payload → payload = frag.payload := by
    rcases h.carries with ⟨hsub, hpayload⟩ | ⟨k, hk⟩
    · exact ⟨.whole hsub, fun payload hp => (Buffers.absorb_whole hsub hp).trans hpayload⟩
    · have hpiece := Buffers.Partly.piece (h.index ▸ hb i frag h.place) hlen hk
      exact ⟨hpiece.1, fun payload hp => (hpiece.2 payload hp).trans (flatten_pieceParts frag (cut i))⟩
  refine ⟨fun j g hg => ?_, hown.2⟩
  by_cases hj : UInt32.ofNat j = pkt.chunkNumber
  · obtain rfl : j = i := by
      have := congrArg UInt32.toNat (hj.trans h.index)
      rwa [UInt32.toNat_ofNat_of_lt' (hlt hg), UInt32.toNat_ofNat_of_lt' (hlt h.place)] at this
    obtain rfl := mem_unique hg h.place
    exact hj ▸ hown.1
  · exact (hb j g hg).other hj

theorem partly_recordAll {pkts : List Packet} {b : Buffers} (hfew : frags.length < 4294967296)
    (hlen : ∀ i frag, frags[i]? = some frag → (pieceParts frag (cut i)).length < 4294967296)
    (hpkts : ∀ pkt ∈ pkts, ∃ i frag, Agrees frags cut pkt i frag)
    (hb : ∀ j g, frags[j]? = some g → b.Partly (pieceParts g (cut j)) (UInt32.ofNat j)) :
    ∀ j g, frags[j]? = some g → (b.recordAll pkts).1.Partly (pieceParts g (cut j)) (UInt32.ofNat j) := by
  induction pkts generalizing b with
  | nil => exact hb
  | cons pkt pkts ih =>
    obtain ⟨i, frag, hpkt⟩ := hpkts pkt mem_cons_self
    exact ih (fun q hq => hpkts q (mem_cons_of_mem pkt hq)) (hpkt.record hfew (hlen i frag hpkt.place) hb).1

end

/-- The packets of any attempts to send the fragments of a transfer arrive in any order, again or never. If
    the pieces of each fragment that arrive are of one size, a fragment that is reported complete is
    reported with its payload. --/
theorem completed_payload {tx : Config} {rs : ReedSolomon} {id : TransferID} {data : Bytes} {isVariable : Bool}
    {sealer : Option Sealer} {frags : List Fragment} {sc scheme : Scheme} {arrivals : List Arrival} {a : Arrival}
    {payload : Bytes} (hbuilt : tx.buildFragments rs id data isVariable sealer = .ok (frags, sc))
    (hfew : frags.length < 4294967296) (hsent : ∀ x ∈ arrivals ++ [a], x.Sent id scheme frags)
    (hpieces : ∀ x ∈ arrivals ++ [a], ∀ frag ∈ frags, (fragmentPieces frag x.sub).length < 4294967296)
    (hone : OneSize (arrivals ++ [a]))
    (hreported : ((Buffers.empty.recordAll (arrivals.map Arrival.pkt)).1.absorbSubChunk a.pkt).1 = some payload) :
    ∃ frag ∈ frags, frag.index = a.pkt.chunkNumber ∧ payload = frag.payload := by
  have hindex := buildFragments_index hbuilt
  have hagrees : ∀ x ∈ arrivals ++ [a], ∃ i frag, Agrees frags (pieceSize (arrivals ++ [a])) x.pkt i frag := fun x hx =>
    (hsent x hx).agrees hindex (hpieces x hx) hone hx
  have hlen : ∀ i frag, frags[i]? = some frag → (pieceParts frag (pieceSize (arrivals ++ [a]) i)).length < 4294967296 :=
    fun i frag hfrag => length_pieceSize fun x hx => hpieces x hx frag (mem_of_getElem? hfrag)
  have hpkts : ∀ pkt ∈ arrivals.map Arrival.pkt, ∃ i frag, Agrees frags (pieceSize (arrivals ++ [a])) pkt i frag := by
    intro pkt hpkt
    obtain ⟨x, hx, rfl⟩ := mem_map.mp hpkt
    exact hagrees x (mem_append_left [a] hx)
  have hbefore :=
    partly_recordAll hfew hlen hpkts fun j g _ => Buffers.partly_empty (pieceParts_ne_nil g _) (UInt32.ofNat j)
  obtain ⟨i, frag, hpkt⟩ := hagrees a (mem_append_right arrivals (mem_singleton_self a))
  refine ⟨frag, mem_of_getElem? hpkt.place, (hindex i frag hpkt.place).trans hpkt.index.symm, ?_⟩
  exact (hpkt.record hfew (hlen i frag hpkt.place) hbefore).2 payload hreported

namespace TwoAttempts
open Sample (node transferID)

def payload : Bytes := List.replicate 150 7

def frag : Fragment := { transferID, index := 0, total := 1, payload }

/-- The first attempt goes hop by hop, over links with frames of 592 bytes; later ones cut to the size that is set. --/
def routedSize : Int := routedSubChunkFor 592 100 0

def piece (sub : Int) (i : UInt32) (payload : Bytes) : Arrival :=
  ⟨sub, { id := transferID, totalChunks := 1, subIndex := i, subTotal := 2, payload }⟩

end TwoAttempts

open TwoAttempts in
open Sample (node transferID) in
theorem completed_payload_resent : ∃ frag' ∈ [frag], frag'.index = 0 ∧ payload = frag'.payload := by
  have hbuilt : (node 0 0 1048576 none).buildFragments copies transferID payload false none =
      .ok ([frag], {}) := by decide +kernel
  have hsent : ∀ x ∈ [piece 100 1 (List.replicate 50 7), piece 100 1 (List.replicate 50 7)] ++
    [piece 100 0 (List.replicate 100 7)],
      x.Sent transferID {} [frag] := by decide +kernel
  exact completed_payload hbuilt (by decide) hsent (by decide +kernel) (by decide +kernel) (by decide +kernel)

open TwoAttempts in
open Sample (node transferID) in
/-- The first piece of one attempt and the second of the other make up the fragment, which is twenty bytes short. --/
theorem completed_mixed :
    (node 0 0 1048576 none).buildFragments copies transferID payload false none = .ok ([frag], {}) ∧
    (piece routedSize 0 (List.replicate 80 7)).Sent transferID {} [frag] ∧
      (piece 100 1 (List.replicate 50 7)).Sent transferID {} [frag] ∧
    ((Buffers.empty.recordAll [(piece routedSize 0 (List.replicate 80 7)).pkt]).1.absorbSubChunk
      (piece 100 1 (List.replicate 50 7)).pkt).1 = some (List.replicate 130 7) ∧
        List.replicate 130 7 ≠ frag.payload := by
  refine ⟨?_, ?_, ?_, ?_, ?_⟩
  all_goals decide +kernel

end SyncSwarm.Transfer
