import SyncSwarm.Theorems.Transfer.Reassembly
import SyncSwarm.Lib.Lists

/-! The fragment pipeline: from the payload to packets, and from packets in any order back to the
    payload. -/

namespace SyncSwarm.Transfer
open Lib Protocol Fragment List

/-! ### What is sent -/

section Build
variable {t : Config} {rs : ReedSolomon} {id : TransferID} {data : Bytes} {isVariable : Bool}
  {sealer opener : Option Sealer}
  {frags : List Fragment} {sc : Scheme}

theorem fragmentsOf_plain (id : TransferID) (parts : List Bytes) :
    FragmentsOf none id parts (plainFragments id parts) := by
  refine ⟨by simp [plainFragments], fun i frag hi => ?_⟩
  simp only [plainFragments, getElem?_mapIdx, Option.map_eq_some_iff] at hi
  obtain ⟨part, hpart, rfl⟩ := hi
  exact ⟨rfl, rfl, part, hpart, rfl⟩

theorem buildChunks_spec (hopen : Undoes opener sealer) (hsize : 0 < t.maxChunkSize)
    (h : t.buildChunks id data sealer = .ok frags) :
    ∃ parts, join parts = data ∧ FragmentsOf opener id parts frags := by
  refine ⟨split data t.maxChunkSize, join_split hsize, ?_⟩
  cases sealer with
  | none =>
    obtain rfl : opener = none := by
      cases opener with
      | none => rfl
      | some o => cases hopen
    cases h
    exact fragmentsOf_plain id _
  | some s =>
    simp only [Config.buildChunks, newFragmenter, dif_pos hsize] at h
    exact fragmentsOf_sealParts hopen h

structure Coded (t : Config) (rs : ReedSolomon) (opener : Option Sealer) (id : TransferID) (data : Bytes)
    (isVariable : Bool) (frags : List Fragment) (sc : Scheme) : Prop where
  dataShards_pos : 0 < t.dataShards.toNat
  keyed : opener.isSome
  scheme : sc = { isVariable, dataShards := UInt32.ofNat t.dataShards.toNat
                  parityShards := UInt32.ofNat t.parityShards.toNat, originalLen := UInt64.ofNat data.length }
  shards : ∃ shards, rs.shards t.dataShards.toNat t.parityShards.toNat data = .ok shards ∧
    FragmentsOf opener id shards frags

theorem buildShards_spec (hopen : Undoes opener sealer)
    (h : t.buildShards rs id data { isVariable } sealer = .ok (frags, sc)) :
    Coded t rs opener id data isVariable frags sc := by
  simp only [Config.buildShards, bind_eq_ok, pure_eq_ok, Prod.mk.injEq] at h
  obtain ⟨f, hf, ⟨frags', origLen⟩, hfrag, rfl, rfl⟩ := h
  cases sealer with
  | none => cases hf
  | some s =>
    rw [newRSFragmenter] at hf
    split at hf
    · next hpos =>
      cases hf
      obtain ⟨rfl, shards, hshards, hfrags⟩ := RSFragmenter.fragment_spec hopen hfrag
      have hkeyed : opener.isSome := by
        cases opener with
        | none => cases hopen
        | some o => rfl
      exact ⟨by omega, hkeyed, rfl, shards, hshards, hfrags⟩
    · cases hf

theorem buildFragments_spec (hopen : Undoes opener sealer) (hsize : 0 < t.maxChunkSize)
    (h : t.buildFragments rs id data isVariable sealer = .ok (frags, sc)) :
    (sc = { isVariable } ∧ ∃ parts, join parts = data ∧ FragmentsOf opener id parts frags) ∨
      Coded t rs opener id data isVariable frags sc := by
  have hchunks : (t.buildChunks id data sealer).map (fun frags => (frags, ({ isVariable } : Scheme))) =
    .ok (frags, sc) →
      sc = { isVariable } ∧ ∃ parts, join parts = data ∧ FragmentsOf opener id parts frags := by
    intro h
    obtain ⟨frags', hfrags, heq⟩ := map_eq_ok.mp h
    cases heq
    exact ⟨rfl, buildChunks_spec hopen hsize hfrags⟩
  rw [Config.buildFragments] at h
  split at h
  · split at h
    · next out hout =>
      cases h
      exact .inr (buildShards_spec hopen hout)
    · exact .inl (hchunks h)
  · exact .inl (hchunks h)

end Build

/-! ### What arrives -/

/-- All pieces of the fragment have arrived. --/
def Arrived (packet : Fragment → Packet) (sub : Int) (arrivals : List Packet) (frag : Fragment) : Prop :=
  ∀ piece ∈ fragmentPieces frag sub, packet piece ∈ arrivals

instance (packet : Fragment → Packet) (sub : Int) (arrivals : List Packet) :
    DecidablePred (Arrived packet sub arrivals) :=
  fun frag => inferInstanceAs (Decidable (∀ piece ∈ fragmentPieces frag sub, packet piece ∈ arrivals))

section Arrivals
variable {frags : List Fragment} {sub : Int} {hfew : frags.length < 4294967296}
  {hpieces : ∀ frag ∈ frags, (fragmentPieces frag sub).length < 4294967296} {arrivals : List Packet}
  {id : TransferID} {sc : Scheme} {sourceNode : String} {replyBlock : Bytes} {i : Nat} {frag : Fragment} {pkt : Packet}

def pieceAt (frag : Fragment) (sub : Int) (k : Nat) (part : Bytes) : Fragment :=
  { frag with subIndex := UInt32.ofNat k, subTotal := UInt32.ofNat (pieceParts frag sub).length, payload := part }

theorem mem_fragmentPieces {piece : Fragment} :
    piece ∈ fragmentPieces frag sub ↔ ∃ k part, (pieceParts frag sub)[k]? = some part ∧
      piece = pieceAt frag sub k part := by
  rw [fragmentPieces_eq]
  constructor
  · intro h
    obtain ⟨k, hk⟩ := mem_iff_getElem?.mp h
    simp only [getElem?_mapIdx, Option.map_eq_some_iff] at hk
    obtain ⟨part, hpart, rfl⟩ := hk
    exact ⟨k, part, hpart, rfl⟩
  · rintro ⟨k, part, hpart, rfl⟩
    exact mem_iff_getElem?.mpr ⟨k, by simp [hpart, pieceAt]⟩

theorem mem_packetsOf :
    pkt ∈ packetsOf id sc sourceNode replyBlock sub frags ↔
      ∃ (i : Nat) (frag : Fragment) (k : Nat) (part : Bytes), frags[i]? = some frag ∧
    (pieceParts frag sub)[k]? = some part ∧ pkt = packetOf id sc sourceNode replyBlock (pieceAt frag sub k part) := by
  simp only [packetsOf, mem_map, mem_flatMap, mem_fragmentPieces]
  constructor
  · rintro ⟨piece, ⟨frag, hfrag, k, part, hpart, rfl⟩, rfl⟩
    obtain ⟨i, hi⟩ := mem_iff_getElem?.mp hfrag
    exact ⟨i, frag, k, part, hi, hpart, rfl⟩
  · rintro ⟨i, frag, k, part, hi, hpart, rfl⟩
    exact ⟨_, ⟨frag, mem_of_getElem? hi, k, part, hpart, rfl⟩, rfl⟩

theorem fits_of_mem (hindex : ∀ i frag, frags[i]? = some frag → frag.index = UInt32.ofNat i)
    (h : pkt ∈ packetsOf id sc sourceNode replyBlock sub frags) : (planOf frags sub hfew hpieces).Fits pkt := by
  obtain ⟨i, frag, k, part, hfrag, hpart, rfl⟩ := mem_packetsOf.mp h
  exact ⟨i, pieceParts frag sub, k, by simp [planOf, hfrag], hindex i frag hfrag, hpart, rfl, rfl⟩

theorem mem_done_iff_arrived (hindex : ∀ i frag, frags[i]? = some frag → frag.index = UInt32.ofNat i)
    (harr : arrivals ⊆ packetsOf id sc sourceNode replyBlock sub frags) (hfrag : frags[i]? = some frag) :
    i ∈ (planOf frags sub hfew hpieces).done arrivals ↔
      Arrived (packetOf id sc sourceNode replyBlock) sub arrivals frag := by
  have hplan : (planOf frags sub hfew hpieces).parts[i]? = some (pieceParts frag sub) := by simp [planOf, hfrag]
  have hlt : ∀ {j frag'}, frags[j]? = some frag' → j < 4294967296 := fun hj =>
    Nat.lt_trans (lt_of_getElem? hj) hfew
  have hplaces : ∀ {j frag'}, frags[j]? = some frag' → (pieceParts frag' sub).length < 4294967296 := fun hj => by
    simpa [fragmentPieces_eq] using hpieces _ (mem_of_getElem? hj)
  rw [Plan.mem_done hplan]
  constructor
  · intro hwhole piece hpiece
    obtain ⟨k, part, hpart, rfl⟩ := mem_fragmentPieces.mp hpiece
    have hk := lt_of_getElem? hpart
    obtain ⟨q, hq, hqk⟩ := mem_map.mp (hwhole k hk)
    obtain ⟨hqmem, hqi⟩ := mem_filter.mp hq
    -- The packet with this index and this place is the packet of this piece.
    obtain ⟨j, frag', k', part', hfrag', hpart', rfl⟩ := mem_packetsOf.mp (harr hqmem)
    have hji : UInt32.ofNat j = UInt32.ofNat i := (hindex j frag' hfrag').symm.trans (of_decide_eq_true hqi)
    obtain rfl : j = i := GoMap.ofNat_inj (hlt hfrag') (hlt hfrag) hji
    obtain rfl := Option.mem_unique hfrag' hfrag
    obtain rfl : k' = k := by
      have hk' := Nat.lt_trans (lt_of_getElem? hpart') (hplaces hfrag')
      rwa [show (packetOf id sc sourceNode replyBlock (pieceAt frag' sub k' part')).subIndex = UInt32.ofNat k' from rfl,
        UInt32.toNat_ofNat_of_lt' hk'] at hqk
    obtain rfl := Option.mem_unique hpart' hpart
    exact hqmem
  · intro harrived k hk
    have hpart := getElem?_eq_getElem hk
    have hmem := harrived _ (mem_fragmentPieces.mpr ⟨k, _, hpart, rfl⟩)
    refine mem_map.mpr ⟨_, mem_filter.mpr ⟨hmem, ?_⟩, UInt32.toNat_ofNat_of_lt' (Nat.lt_trans hk (hplaces hfrag))⟩
    exact decide_eq_true (hindex i frag hfrag)

theorem length_done (hindex : ∀ i frag, frags[i]? = some frag → frag.index = UInt32.ofNat i)
    (harr : arrivals ⊆ packetsOf id sc sourceNode replyBlock sub frags) :
    ((planOf frags sub hfew hpieces).done arrivals).length =
      frags.countP fun frag => decide (Arrived (packetOf id sc sourceNode replyBlock) sub arrivals frag) := by
  rw [← length_filter_range]
  refine ((perm_ext_iff_of_nodup (Plan.nodup_done _ _) (List.Nodup.filter _ nodup_range)).mpr fun i => ?_).length_eq
  cases hfrag : frags[i]? with
  | none =>
    have hi : ¬i < frags.length := Nat.not_lt.mpr (getElem?_eq_none_iff.mp hfrag)
    have hdone : i ∉ (planOf frags sub hfew hpieces).done arrivals := fun h => hi (by simpa using Plan.lt_of_mem_done h)
    simp [hdone, hi]
  | some frag =>
    obtain ⟨hi, rfl⟩ := List.getElem?_eq_some_iff.mp hfrag
    simp [mem_done_iff_arrived hindex harr hfrag, hi]

end Arrivals

/-! ### The round trip -/

/-- The state of a transfer of which nothing has arrived. --/
structure TransferState.Starts (st : TransferState) (id : TransferID) (frags : List Fragment) (sc : Scheme) : Prop where
  buffers : st.toBuffers = .empty
  id : st.id = id
  total : st.total = UInt32.ofNat frags.length
  scheme : st.scheme = sc

section RoundTrip
variable {frags : List Fragment} {sub : Int} {hfew : frags.length < 4294967296}
  {hpieces : ∀ frag ∈ frags, (fragmentPieces frag sub).length < 4294967296} {pkts : List Packet} {st : TransferState}

theorem enough_coded (hb : (planOf frags sub hfew hpieces).Held pkts st.toBuffers) (hpos : 0 < st.scheme.dataShards) :
    st.enoughToReassembleLocked ↔ st.scheme.dataShards.toNat ≤ ((planOf frags sub hfew hpieces).done pkts).length := by
  have hlen : ((planOf frags sub hfew hpieces).done pkts).length < 4294967296 := by
    refine Nat.lt_of_le_of_lt ((planOf frags sub hfew hpieces).length_done_le pkts) ?_
    rw [length_planOf]
    exact hfew
  rw [TransferState.enoughToReassembleLocked, if_pos hpos, decide_eq_true_iff, hb.received_len, UInt32.le_iff_toNat_le,
    UInt32.toNat_ofNat_of_lt' hlen]

theorem complete_iff (hb : (planOf frags sub hfew hpieces).Held pkts st.toBuffers)
    (htotal : st.total = UInt32.ofNat frags.length) :
    st.isCompleteLocked ↔ ∀ i < frags.length, i ∈ (planOf frags sub hfew hpieces).done pkts := by
  have htoNat : (UInt32.ofNat frags.length).toNat = frags.length := UInt32.toNat_ofNat_of_lt' hfew
  have hreceived : ∀ i < frags.length, (st.received.get? (UInt32.ofNat i)).getD false = true ↔
      i ∈ (planOf frags sub hfew hpieces).done pkts := by
    intro i hi
    rw [st.received_eq, hb.chunk_isSome, UInt32.toNat_ofNat_of_lt' (Nat.lt_trans hi hfew)]
  rw [TransferState.isCompleteLocked, htotal, Bool.and_eq_true, htoNat, all_eq_true, decide_eq_true_iff,
    hb.received_len]
  simp only [mem_range]
  constructor
  · rintro ⟨-, hall⟩ i hi
    exact (hreceived i hi).mp (hall i hi)
  · intro hall
    have hlen :=
      Plan.length_done_of_all (by simpa using hall : ∀ i < (planOf frags sub hfew hpieces).parts.length, i ∈ _)
    exact ⟨by rw [hlen, length_planOf], fun i hi => (hreceived i hi).mpr (hall i hi)⟩

theorem enough_sequential (hb : (planOf frags sub hfew hpieces).Held pkts st.toBuffers)
    (hscheme : st.scheme.dataShards = 0) (htotal : st.total = UInt32.ofNat frags.length) :
    st.enoughToReassembleLocked ↔ ∀ i < frags.length, i ∈ (planOf frags sub hfew hpieces).done pkts := by
  rw [TransferState.enoughToReassembleLocked, hscheme, if_neg (by decide), complete_iff hb htotal]

section Slots
variable (hfew hpieces) {id : TransferID} {sc : Scheme} {sourceNode : String} {replyBlock : Bytes}
  (hindex : ∀ i frag, frags[i]? = some frag → frag.index = UInt32.ofNat i) (hempty : st.toBuffers = .empty)
  (harr : pkts ⊆ packetsOf id sc sourceNode replyBlock sub frags)
include hfew hpieces hindex hempty harr

theorem held_of_arrivals :
    (planOf frags sub hfew hpieces).Held pkts.reverse (st.recordAll pkts).1.toBuffers := by
  have h := ((planOf frags sub hfew hpieces).held_empty).recordAll fun pkt hpkt => fits_of_mem hindex (harr hpkt)
  rw [append_nil, ← hempty] at h
  exact h

theorem chunk_of_arrivals {frag : Fragment} (hfrag : frag ∈ frags) : (st.recordAll pkts).1.chunks.get? frag.index =
    if Arrived (packetOf id sc sourceNode replyBlock) sub pkts frag then some frag.payload else none := by
  obtain ⟨i, hi⟩ := mem_iff_getElem?.mp hfrag
  have hb := held_of_arrivals hfew hpieces hindex hempty harr
  rw [hindex i frag hi, chunk_of_held hb hi, Plan.done_congr fun _ => mem_reverse]
  simp only [mem_done_iff_arrived hindex harr hi]

theorem chunk_outside {i : UInt32} (hi : ∀ frag ∈ frags, frag.index ≠ i) :
    (st.recordAll pkts).1.chunks.get? i = none := by
  have hb := held_of_arrivals hfew hpieces hindex hempty harr
  refine hb.outside i ?_
  by_contra hlt
  rw [length_planOf, Nat.not_le] at hlt
  refine hi _ (getElem_mem hlt) ?_
  rw [hindex _ _ (getElem?_eq_getElem hlt), UInt32.ofNat_toNat]

theorem count_of_arrivals {frag : Fragment} (hfrag : frag ∈ frags) : (st.recordAll pkts).2.count frag.index =
    if Arrived (packetOf id sc sourceNode replyBlock) sub pkts frag then 1 else 0 := by
  obtain ⟨i, hi⟩ := mem_iff_getElem?.mp hfrag
  have hlt : i < (planOf frags sub hfew hpieces).parts.length := by
    simpa using (lt_of_getElem? hi)
  have hcount :=
    (planOf frags sub hfew hpieces).held_empty.count_reports (fun pkt hpkt => fits_of_mem hindex (harr hpkt)) hlt
  rw [hindex i frag hi, TransferState.recordAll, hempty, hcount, append_nil,
    Plan.done_congr fun _ => mem_reverse]
  simp only [Plan.done_nil, not_mem_nil, not_false_eq_true, true_and, mem_done_iff_arrived hindex harr hi]

end Slots

theorem reassemble_sequential {rx : Config} {rs : ReedSolomon} {parts : List Bytes}
    (hb : (planOf frags sub hfew hpieces).Held pkts st.toBuffers) (hscheme : st.scheme.dataShards = 0)
    (htotal : st.total = UInt32.ofNat frags.length)
    (hf : FragmentsOf (rx.recipientOpener st.scheme) st.id parts frags)
    (hall : ∀ i < frags.length, i ∈ (planOf frags sub hfew hpieces).done pkts) :
    rx.reassemble rs st = .ok (join parts) := by
  rw [Config.reassemble, hscheme, if_neg (by decide), mapError_eq_ok, htotal, hf.length]
  refine reassembleChunks_of_opens (hf.length ▸ hfew) fun i part hpart => ?_
  have hi : i < frags.length := hf.length ▸ lt_of_getElem? hpart
  obtain ⟨payload, part', hchunk, hpart', hopens⟩ := opens_of_held hb hf (hall i hi)
  obtain rfl := Option.mem_unique hpart' hpart
  exact ⟨payload, hchunk, hopens⟩

theorem intOfLen_ofNat {n : Nat} (hn : n < 9223372036854775808) : intOfLen (UInt64.ofNat n) = n := by
  have htoNat : (UInt64.ofNat n).toNat = n := UInt64.toNat_ofNat_of_lt' (Nat.lt_trans hn (by decide))
  rw [intOfLen, htoNat, if_pos hn]

theorem reassemble_coded {rx : Config} {rs : ReedSolomon} (hrs : rs.Lawful) {d p : Nat} {data : Bytes}
    {shards : List Bytes} {s : Sealer} (hb : (planOf frags sub hfew hpieces).Held pkts st.toBuffers) (hpos : 0 < d)
    (hdata : st.scheme.dataShards = UInt32.ofNat d) (hparity : st.scheme.parityShards = UInt32.ofNat p)
    (horig : st.scheme.originalLen = UInt64.ofNat data.length) (hlen : data.length < 9223372036854775808)
    (htotal : st.total = UInt32.ofNat frags.length) (hopener : rx.recipientOpener st.scheme = some s)
    (hshards : rs.shards d p data = .ok shards) (hf : FragmentsOf (some s) st.id shards frags)
    (hdone : d ≤ ((planOf frags sub hfew hpieces).done pkts).length) : rx.reassemble rs st = .ok data := by
  have hsum : d + p < 4294967296 := by rw [← hrs.length hshards, ← hf.length]; exact hfew
  have hd : (UInt32.ofNat d).toNat = d := UInt32.toNat_ofNat_of_lt' (Nat.lt_of_le_of_lt (Nat.le_add_right d p) hsum)
  have hp : (UInt32.ofNat p).toNat = p := UInt32.toNat_ofNat_of_lt' (Nat.lt_of_le_of_lt (Nat.le_add_left p d) hsum)
  have hpos' : 0 < UInt32.ofNat d := by rw [UInt32.lt_iff_toNat_lt, hd]; exact hpos
  rw [Config.reassemble, hdata, if_pos hpos', hd, hparity, hp, horig, intOfLen_ofNat hlen, hopener, htotal, hf.length,
    reconstruct_of_held hrs hb hshards hf hdone (Nat.le_refl _), take_length]

end RoundTrip

/-- Whatever packets of a transfer arrive, in whatever order and however often: a fragment is held when all its
    packets have come, with its payload, and was reported once; the test for enough fragments is what it
    should be; and when it holds the payload is what was sent. --/
theorem pipeline_round_trip {tx rx : Config} {rs : ReedSolomon} (hrs : rs.Lawful) {id : TransferID} {data : Bytes}
    {isVariable hybrid pq : Bool} {sealer : Option Sealer} {sub : Int} {frags : List Fragment} {sc sent : Scheme}
    (hlen : data.length < 9223372036854775808) (hsize : 0 < tx.maxChunkSize)
    (hbuild : tx.buildFragments rs id data isVariable sealer = .ok (frags, sc))
    (hsent : sent = { sc with hybridSealed := hybrid, pq }) (hopen : Undoes (rx.recipientOpener sent) sealer)
    (hfew : frags.length < 4294967296) (hpieces : ∀ frag ∈ frags, (fragmentPieces frag sub).length < 4294967296)
    {sourceNode : String} {replyBlock : Bytes} {st : TransferState} (hst : st.Starts id frags sent)
    {arrivals : List Packet} (harr : arrivals ⊆ packetsOf id sent sourceNode replyBlock sub frags) :
    (∀ frag ∈ frags, (st.recordAll arrivals).1.chunks.get? frag.index =
        if Arrived (packetOf id sent sourceNode replyBlock) sub arrivals frag then some frag.payload else none) ∧
      (∀ i, (∀ frag ∈ frags, frag.index ≠ i) → (st.recordAll arrivals).1.chunks.get? i = none) ∧
      (∀ frag ∈ frags, (st.recordAll arrivals).2.count frag.index =
        if Arrived (packetOf id sent sourceNode replyBlock) sub arrivals frag then 1 else 0) ∧
      ((st.recordAll arrivals).1.enoughToReassembleLocked ↔
        if 0 < sc.dataShards then
          sc.dataShards.toNat ≤ frags.countP fun frag =>
            Arrived (packetOf id sent sourceNode replyBlock) sub arrivals frag
        else ∀ frag ∈ frags, Arrived (packetOf id sent sourceNode replyBlock) sub arrivals frag) ∧
      ((st.recordAll arrivals).1.enoughToReassembleLocked → rx.reassemble rs (st.recordAll arrivals).1 = .ok data) := by
  have hspec := buildFragments_spec hopen hsize hbuild
  have hindex : ∀ i frag, frags[i]? = some frag → frag.index = UInt32.ofNat i := by
    intro i frag hi
    obtain ⟨-, parts, -, hf⟩ | ⟨-, -, -, shards, -, hf⟩ := hspec
    · exact (hf.place i frag hi).index
    · exact (hf.place i frag hi).index
  have hb := held_of_arrivals hfew hpieces hindex hst.buffers harr
  have hdone : (planOf frags sub hfew hpieces).done arrivals.reverse = (planOf frags sub hfew hpieces).done arrivals :=
    Plan.done_congr fun _ => mem_reverse
  refine ⟨fun frag => chunk_of_arrivals hfew hpieces hindex hst.buffers harr,
    fun i => chunk_outside hfew hpieces hindex hst.buffers harr,
    fun frag => count_of_arrivals hfew hpieces hindex hst.buffers harr, ?_⟩
  have hscheme : (st.recordAll arrivals).1.scheme = sent := hst.scheme
  obtain ⟨rfl, parts, rfl, hf⟩ | ⟨hpos, hkeyed, rfl, shards, hshards, hf⟩ := hspec
  · have henough := enough_sequential hb (by rw [hscheme, hsent]) hst.total
    refine ⟨?_, fun h => ?_⟩
    · rw [henough, if_neg (UInt32.lt_irrefl 0), hdone]
      constructor
      · intro hall frag hfrag
        obtain ⟨i, hi⟩ := mem_iff_getElem?.mp hfrag
        exact (mem_done_iff_arrived hindex harr hi).mp (hall i (lt_of_getElem? hi))
      · intro hall i hi
        exact (mem_done_iff_arrived hindex harr (getElem?_eq_getElem hi)).mpr (hall _ (getElem_mem hi))
    · refine reassemble_sequential hb (by rw [hscheme, hsent]) hst.total ?_ (henough.mp h)
      rw [hscheme]
      exact hst.id ▸ hf
  · have hsum : tx.dataShards.toNat ≤ frags.length := by
      rw [hf.length, hrs.length hshards]
      exact Nat.le_add_right _ _
    have hsmall := Nat.lt_of_le_of_lt hsum hfew
    have hpos' : 0 < UInt32.ofNat tx.dataShards.toNat := (UInt32.ofNat_lt_iff_lt (by decide) hsmall).mpr hpos
    have hshard : (st.recordAll arrivals).1.scheme.dataShards = UInt32.ofNat tx.dataShards.toNat := by
      rw [hscheme, hsent]
    have henough := enough_coded hb (hshard ▸ hpos')
    rw [hshard, UInt32.toNat_ofNat_of_lt' hsmall] at henough
    refine ⟨?_, fun h => ?_⟩
    · rw [henough, if_pos hpos', hdone, length_done hindex harr, UInt32.toNat_ofNat_of_lt' hsmall]
    · obtain ⟨s, hopener⟩ := Option.isSome_iff_exists.mp hkeyed
      rw [hopener] at hf
      exact reassemble_coded hrs hb hpos (by rw [hscheme, hsent]) (by rw [hscheme, hsent]) (by rw [hscheme, hsent]) hlen
        hst.total (hscheme ▸ hopener) hshards (hst.id ▸ hf) (henough.mp h)

/-! ### A coded transfer -/

def copies : ReedSolomon where
  new d p := if d = 1 ∧ p < 65536 then .ok () else .error "cannot create Encoder with this many shards"
  split d p data := if data = [] then .error "not enough data to fill the number of requested shards"
    else .ok (data :: List.replicate (d + p - 1) (List.replicate data.length 0))
  encode d p shards := .ok (List.replicate (d + p) (shards.headD []))
  reconstruct d p shards :=
    match shards.find? (· ≠ []) with
    | some shard => .ok (List.replicate (d + p) shard)
    | none => .error "too few shards given"
  join _ _ shards n :=
    if 0 ≤ n ∧ n ≤ (shards.headD []).length then .ok ((shards.headD []).take n.toNat)
    else .error (.error "not enough data to fill the number of requested shards")

theorem copies_shards {d p : Nat} {data : Bytes} {shards : List Bytes} (h : copies.shards d p data = .ok shards) :
    d = 1 ∧ data ≠ [] ∧ shards = List.replicate (d + p) data := by
  simp only [ReedSolomon.shards, bind_eq_ok, mapError_eq_ok] at h
  obtain ⟨_, hnew, parts, hsplit, hencode⟩ := h
  simp only [copies] at hnew hsplit hencode
  split at hnew
  · next hd =>
    split at hsplit
    · cases hsplit
    · next hdata =>
      cases hsplit
      cases hencode
      exact ⟨hd.1, hdata, rfl⟩
  · cases hnew

theorem copies_shards_ok {p : Nat} {data : Bytes} (hp : p < 65536) (hdata : data ≠ []) :
    copies.shards 1 p data = .ok (List.replicate (1 + p) data) := by
  simp [ReedSolomon.shards, copies, hp, hdata, bind, Except.bind]

theorem copies_lawful : copies.Lawful where
  few {d p} h := by
    by_cases hnew : d = 1 ∧ p < 65536
    · omega
    · simp [copies, hnew] at h
  length h := by
    obtain ⟨-, -, rfl⟩ := copies_shards h
    simp
  nonempty h hmem := by
    obtain ⟨-, hdata, rfl⟩ := copies_shards h
    exact hdata (eq_of_mem_replicate hmem).symm
  recover {d p data shards held} h hremains hcount n hn := by
    obtain ⟨rfl, hdata, rfl⟩ := copies_shards h
    have hright : ∀ shard ∈ held, shard ≠ [] → shard = data := by
      intro shard hshard hne
      obtain ⟨i, hi⟩ := mem_iff_getElem?.mp hshard
      have hlt : i < (List.replicate (1 + p) data).length := hremains.length ▸ lt_of_getElem? hi
      rcases hremains.place i hlt with hempty | hsame
      · exact absurd (Option.mem_unique hi hempty) hne
      · exact eq_of_mem_replicate (mem_of_getElem? (hsame.symm.trans hi))
    obtain ⟨shard, hshard, hne⟩ := countP_pos_iff.mp (Nat.lt_of_lt_of_le Nat.one_pos hcount)
    cases hfind : held.find? (· ≠ []) with
    | none => exact absurd hne (find?_eq_none.mp hfind shard hshard)
    | some found =>
      have hfound : found ≠ [] := by simpa using find?_some hfind
      obtain rfl : found = data := hright found (mem_of_find?_eq_some hfind) hfound
      refine ⟨List.replicate (1 + p) found, by simp only [copies, hfind], ?_⟩
      simp [copies, Nat.add_comm 1 p, replicate_succ, hn]

namespace Sample

def labelSealer : Sealer where
  sealBytes _ plain a := .ok (a ++ plain)
  openBytes sealed a :=
    if a.isPrefixOf sealed then .ok (sealed.drop a.length) else .error "message authentication failed"

theorem undoes_labelSealer : Undoes (some labelSealer) (some labelSealer) := by
  intro draw plain a sealed h
  cases h
  simp [labelSealer]

theorem sealParts_label (draw : Nat) (id : TransferID) (what : String) (total : UInt32) (i : Nat) (parts : List Bytes) :
    ∃ frags, sealParts labelSealer draw id what total i parts = .ok frags := by
  induction parts generalizing i with
  | nil => exact ⟨[], rfl⟩
  | cons part parts ih =>
    obtain ⟨rest, hrest⟩ := ih (i + 1)
    exact ⟨_, by rw [sealParts, hrest]; rfl⟩

def node (dataShards parityShards maxChunkSize : Int) (sealer : Option Sealer) : Config where
  dataShards
  parityShards
  maxChunkSize
  sealer
  hybridSealer := labelSealer
  pqSealer := labelSealer

def transferID : TransferID := .replicate 32 7

def scheme : Scheme := { dataShards := 1, parityShards := 1, originalLen := 3 }

def shard (i : UInt32) : Fragment :=
  { transferID, index := i, total := 2, payload := aad transferID i 2 ++ [1, 2, 3] }

theorem size_coded : 0 < (node 1 1 16 (some labelSealer)).maxChunkSize := by decide

theorem short_bytes : ([1, 2, 3] : Bytes).length < 9223372036854775808 := by decide

theorem few_shards : [shard 0, shard 1].length < 4294967296 := by decide

theorem few_plain : (plainFragments transferID [[1, 2, 3]]).length < 4294967296 := by decide

def start (total : UInt32) (scheme : Scheme) : TransferState :=
  { Buffers.empty with
    id := transferID, total, scheme, sourceNode := "sender", replyBlock := [], routed := false, delivered := false }

def parity : List Packet :=
  (packetsOf transferID scheme "sender" [] 16 [shard 1]).reverse ++ packetsOf transferID scheme "sender" [] 16 [shard 1]

end Sample

open Sample in
theorem pipeline_round_trip_parity :
    (node 1 1 16 (some labelSealer)).buildFragments copies transferID [1, 2, 3] false (some labelSealer) =
        .ok ([shard 0, shard 1], scheme) ∧
      (node 1 1 16 (some labelSealer)).reassemble copies ((start 2 scheme).recordAll parity).1 = .ok [1, 2, 3] := by
  have hbuild : (node 1 1 16 (some labelSealer)).buildFragments copies transferID [1, 2, 3] false (some labelSealer) =
      .ok ([shard 0, shard 1], scheme) := rfl
  have h := pipeline_round_trip copies_lawful (by decide) (by decide) hbuild
    (rfl : scheme = { scheme with hybridSealed := false, pq := false })
    (show Undoes ((node 1 1 16 (some labelSealer)).recipientOpener scheme) _ from undoes_labelSealer) (by decide)
    (by decide : ∀ frag ∈ [shard 0, shard 1], (fragmentPieces frag 16).length < 4294967296)
    (show (start 2 scheme).Starts transferID _ scheme from ⟨rfl, rfl, rfl, rfl⟩)
      (by decide : parity ⊆ packetsOf transferID scheme "sender" [] 16 [shard 0, shard 1])
  exact ⟨hbuild, h.2.2.2.2 (by decide)⟩

namespace Sample

def long : Bytes := List.replicate 4294967296 0

theorem length_long : long.length = 4294967296 := length_replicate

theorem split_long_one : (split long 1).length = 4294967296 := by
  rw [split_of_pos (by decide), length_chunks, length_long]
  decide

theorem split_long_self : split long 4294967296 = [long] := by
  have hne : long ≠ [] := fun h => absurd (h ▸ length_long) (by decide)
  rw [split_of_pos (by decide), chunks_of_length_le hne (by rw [length_long]; decide)]

theorem split_long_head : (split long 1)[0]? = some [0] := by
  have hcount : 0 < chunkCount (1 : Int).toNat long.length := by
    rw [length_long]
    decide
  rw [split_of_pos (by decide), getElem?_chunks hcount, Nat.zero_mul, drop_zero, long, take_replicate]
  rfl

def whole : Fragment := { transferID, index := 0, total := 1, payload := long }

theorem pieceParts_whole : pieceParts whole 1 = split long 1 := by
  have hlong : ¬((1 : Int) ≤ 0 ∨ (whole.payload.length : Int) ≤ 1) := by
    rw [show whole.payload.length = 4294967296 from length_long]
    decide
  rw [pieceParts, if_neg hlong]
  rfl

def first : Packet := { id := transferID, sourceNode := "sender", totalChunks := 1, payload := [0] }

theorem first_mem : first ∈ packetsOf transferID {} "sender" [] 1 [whole] := by
  refine mem_packetsOf.mpr ⟨0, whole, 0, [0], rfl, ?_, ?_⟩
  · rw [pieceParts_whole, split_long_head]
  · rw [pieceAt, pieceParts_whole, split_long_one]
    rfl

end Sample

open Sample in
/-- A chunk size that is not positive, 2^32 chunks and 2^32 pieces: the first two transfers are complete before anything
    has arrived, the third with its first piece. --/
theorem pipeline_truncates :
    ((node 0 0 0 none).buildFragments copies transferID [1] false none = .ok ([], {}) ∧
      (start 0 {}).enoughToReassembleLocked ∧ (node 0 0 0 none).reassemble copies (start 0 {}) = .ok []) ∧
    (∃ frags, (node 0 0 1 none).buildFragments copies transferID long false none = .ok (frags, {}) ∧
      (start (UInt32.ofNat frags.length) {}).enoughToReassembleLocked ∧
      (node 0 0 1 none).reassemble copies (start (UInt32.ofNat frags.length) {}) = .ok []) ∧
    ((node 0 0 4294967296 none).buildFragments copies transferID long false none = .ok ([whole], {}) ∧
      ∃ pkt ∈ packetsOf transferID {} "sender" [] 1 [whole], ((start 1 {}).recordAll [pkt]).1.enoughToReassembleLocked ∧
        (node 0 0 4294967296 none).reassemble copies ((start 1 {}).recordAll [pkt]).1 = .ok [0]) := by
  refine ⟨⟨rfl, rfl, rfl⟩, ⟨plainFragments transferID (split long 1), rfl, ?_⟩, ?_, first, first_mem, rfl, rfl⟩
  · have hlen : (plainFragments transferID (split long 1)).length = 4294967296 := by
      rw [(fragmentsOf_plain transferID _).length, split_long_one]
    rw [hlen]
    exact ⟨rfl, rfl⟩
  · have hbuild : (node 0 0 4294967296 none).buildFragments copies transferID long false none =
        .ok (plainFragments transferID (split long 4294967296), {}) := rfl
    rw [hbuild, split_long_self]
    rfl

end SyncSwarm.Transfer
