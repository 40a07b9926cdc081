import SyncSwarm.Lib.Lists
import SyncSwarm.Transfer.Pieces

/-! Putting pieces together. What the buffers hold does not depend on the order of the packets
    or on their repetition. -/

namespace SyncSwarm.Transfer
open Lib Protocol Fragment List

/-! ### Pieces -/

def pieceParts (frag : Fragment) (subChunkSize : Int) : List Bytes :=
  if subChunkSize ≤ 0 ∨ frag.payload.length ≤ subChunkSize then [frag.payload] else split frag.payload subChunkSize

theorem fragmentPieces_eq (frag : Fragment) (sub : Int) : fragmentPieces frag sub =
    (pieceParts frag sub).mapIdx fun i p =>
      { frag with
        subIndex := UInt32.ofNat i, subTotal := UInt32.ofNat (pieceParts frag sub).length, payload := p } := by
  unfold fragmentPieces pieceParts
  split <;> rfl

variable {data : Bytes} {size : Int} {ps : List Bytes} {k : Nat} {pkt : Packet}

theorem split_of_pos (hsize : 0 < size) : split data size = chunks size.toNat data := by
  rw [split]
  split
  · next h =>
    obtain hdata : data = [] := length_eq_zero_iff.mp (h.resolve_left (Int.not_le.mpr hsize))
    rw [hdata, chunks_nil]
  · rfl

theorem join_split (hsize : 0 < size) : join (split data size) = data := by
  rw [split_of_pos hsize, join, flatten_chunks (by omega)]

theorem flatten_pieceParts (frag : Fragment) (sub : Int) : (pieceParts frag sub).flatten = frag.payload := by
  unfold pieceParts
  split
  · simp
  · next h => exact join_split (by omega)

theorem pieceParts_ne_nil (frag : Fragment) (sub : Int) : pieceParts frag sub ≠ [] := by
  unfold pieceParts
  split
  · simp
  · next h =>
    rw [split_of_pos (by omega), ← length_pos_iff, length_chunks]
    exact chunkCount_pos (by omega) (by omega)

theorem fragmentPieces_ne_nil (frag : Fragment) (sub : Int) : fragmentPieces frag sub ≠ [] := by
  rw [fragmentPieces_eq]
  intro h
  exact pieceParts_ne_nil frag sub (mapIdx_eq_nil_iff.mp h)

/-! ### One index -/

/-- The packet is the `k`-th of the pieces. --/
structure Carries (ps : List Bytes) (k : Nat) (pkt : Packet) : Prop where
  part : ps[k]? = some pkt.payload
  subIndex : pkt.subIndex = UInt32.ofNat k
  subTotal : pkt.subTotal = UInt32.ofNat ps.length

theorem Carries.subIndex_toNat (h : Carries ps k pkt)
    (hn : ps.length < 4294967296) : pkt.subIndex.toNat = k := by
  obtain ⟨hlt, -⟩ := List.getElem?_eq_some_iff.mp h.part
  rw [h.subIndex, UInt32.toNat_ofNat_of_lt' (Nat.lt_trans hlt hn)]

theorem Carries.subIndex_lt (h : Carries ps k pkt)
    (hn : ps.length < 4294967296) : pkt.subIndex < pkt.subTotal := by
  obtain ⟨hlt, -⟩ := List.getElem?_eq_some_iff.mp h.part
  rw [h.subIndex, h.subTotal]
  exact (UInt32.ofNat_lt_iff_lt (Nat.lt_trans hlt hn) hn).mpr hlt

def Whole (ps : List Bytes) (got : List Nat) : Prop := ∀ k < ps.length, k ∈ got

instance (ps : List Bytes) (got : List Nat) : Decidable (Whole ps got) :=
  inferInstanceAs (Decidable (∀ k < ps.length, k ∈ got))

theorem Whole.cons {got : List Nat} (h : Whole ps got) : Whole ps (k :: got) :=
  fun j hj => mem_cons_of_mem k (h j hj)

namespace Buffers
variable {b : Buffers} {ps : List Bytes} {got : List Nat} {i : UInt32} {k : Nat} {pkt : Packet}

def piecesOf (b : Buffers) (i : UInt32) : GoMap UInt32 Bytes := (b.subParts.get? i).getD ∅

structure Holds (ps : List Bytes) (got : List Nat) (b : Buffers) (i : UInt32) : Prop where
  whole : Whole ps got → b.chunks.get? i = some ps.flatten
  missing : ¬Whole ps got → b.chunks.get? i = none
  pieces : ¬Whole ps got → ∀ j, (b.piecesOf i).get? j =
    if j.toNat ∈ got then ps[j.toNat]? else none

theorem received_eq (b : Buffers) (i : UInt32) : (b.received.get? i).getD false = (b.chunks.get? i).isSome := by
  rw [b.recorded]
  cases b.chunks.get? i <;> rfl

/-! #### What a packet does -/

theorem absorb_received (h : (b.chunks.get? pkt.chunkNumber).isSome) : b.absorbSubChunk pkt = (none, b.subParts) := by
  rw [absorbSubChunk, received_eq, if_pos h]

theorem absorb_single (h : b.chunks.get? pkt.chunkNumber = none) (hsub : pkt.subTotal ≤ 1) :
    b.absorbSubChunk pkt = (some pkt.payload, b.subParts) := by
  rw [absorbSubChunk, received_eq, h]
  simp [hsub]

theorem absorb_piece (h : b.chunks.get? pkt.chunkNumber = none) (hsub : ¬pkt.subTotal ≤ 1)
    (hidx : pkt.subIndex < pkt.subTotal) :
    b.absorbSubChunk pkt =
      if UInt32.ofNat (addPiece (b.piecesOf pkt.chunkNumber) pkt).len < pkt.subTotal then
        (none, b.subParts.set pkt.chunkNumber (addPiece (b.piecesOf pkt.chunkNumber) pkt))
      else (some (concatPieces (addPiece (b.piecesOf pkt.chunkNumber) pkt) pkt.subTotal),
        b.subParts.delete pkt.chunkNumber) := by
  rw [absorbSubChunk, received_eq, h]
  simp only [Option.isSome_none, Bool.false_eq_true, if_false, hsub, UInt32.not_le.mpr hidx]
  rfl

theorem record_some {p : Bytes} {m : GoMap UInt32 (GoMap UInt32 Bytes)} (h : b.absorbSubChunk pkt = (some p, m)) :
    (b.record pkt).chunks = b.chunks.set pkt.chunkNumber p ∧ (b.record pkt).subParts = m := by
  rw [record, h]
  exact ⟨rfl, rfl⟩

theorem record_none {m : GoMap UInt32 (GoMap UInt32 Bytes)} (h : b.absorbSubChunk pkt = (none, m)) :
    (b.record pkt).chunks = b.chunks ∧ (b.record pkt).subParts = m := by
  rw [record, h]
  exact ⟨rfl, rfl⟩

theorem record_other (hi : i ≠ pkt.chunkNumber) :
    (b.record pkt).chunks.get? i = b.chunks.get? i ∧ (b.record pkt).piecesOf i = b.piecesOf i := by
  have hparts : (b.absorbSubChunk pkt).2.get? i = b.subParts.get? i := by
    simp only [absorbSubChunk]
    repeat' split
    · rfl
    · rfl
    · rfl
    · exact GoMap.get?_set_ne _ _ hi
    · exact GoMap.get?_delete_ne _ hi
  cases h : b.absorbSubChunk pkt with
  | mk payload m =>
    rw [h] at hparts
    cases payload with
    | some p =>
      obtain ⟨hchunks, hsub⟩ := record_some h
      rw [piecesOf, piecesOf, hchunks, hsub, GoMap.get?_set_ne _ _ hi, hparts]
      exact ⟨rfl, rfl⟩
    | none =>
      obtain ⟨hchunks, hsub⟩ := record_none h
      rw [piecesOf, piecesOf, hchunks, hsub, hparts]
      exact ⟨rfl, rfl⟩

theorem Holds.other (h : Holds ps got b i) (hi : i ≠ pkt.chunkNumber) : Holds ps got (b.record pkt) i := by
  obtain ⟨hchunks, hpieces⟩ := b.record_other hi
  exact ⟨fun hw => hchunks.trans (h.whole hw), fun hw => hchunks.trans (h.missing hw),
    fun hw => hpieces ▸ h.pieces hw⟩

/-! #### The packets of the index -/

variable {m : GoMap UInt32 Bytes}

theorem get?_addPiece (hn : ps.length < 4294967296) (hk : Carries ps k pkt)
    (hm : ∀ j : UInt32, m.get? j = if j.toNat ∈ got then ps[j.toNat]? else none) (j : UInt32) :
    (addPiece m pkt).get? j = if j.toNat ∈ k :: got then ps[j.toNat]? else none := by
  have hkn := hk.subIndex_toNat hn
  have hset : (addPiece m pkt).get? j = if j = pkt.subIndex then some pkt.payload else m.get? j := by
    rw [addPiece]
    split
    · next hsome =>
      split
      · next hj =>
        -- The place has a piece already: it is the same one.
        rw [hj, hm, hkn]
        rw [hm, hkn] at hsome
        split at hsome
        · next hgot => rw [if_pos hgot, hk.part]
        · cases hsome
      · rfl
    · exact GoMap.get?_set _ _ _ _
  rw [hset, hm]
  by_cases hj : j = pkt.subIndex
  · rw [if_pos hj, hj, hkn, if_pos mem_cons_self, hk.part]
  · have hne : j.toNat ≠ k := fun heq => hj (UInt32.toNat_inj.mp (heq.trans hkn.symm))
    simp [hj, hne]

theorem len_pieces (hn : ps.length < 4294967296)
    (hm : ∀ j : UInt32, m.get? j = if j.toNat ∈ got then ps[j.toNat]? else none) :
    m.len = ((List.range ps.length).filter (· ∈ got)).length := by
  refine GoMap.len_eq_of_toNat (List.Nodup.filter _ nodup_range) ?_ fun j => ?_
  · intro a ha
    exact Nat.lt_trans (mem_range.mp (mem_filter.mp ha).1) hn
  · rw [hm]
    by_cases hgot : j.toNat ∈ got
    · simp [hgot]
    · simp [hgot]

theorem len_pieces_lt (hn : ps.length < 4294967296)
    (hm : ∀ j : UInt32, m.get? j = if j.toNat ∈ got then ps[j.toNat]? else none) :
    UInt32.ofNat m.len < UInt32.ofNat ps.length ↔ ¬Whole ps got := by
  have hlen := len_pieces hn hm
  have hle : m.len ≤ ps.length := by
    rw [hlen]
    exact Nat.le_trans (length_filter_le _ _) (Nat.le_of_eq length_range)
  rw [UInt32.ofNat_lt_iff_lt (Nat.lt_of_le_of_lt hle hn) hn, hlen]
  conv_lhs => rhs; rw [← length_range (n := ps.length)]
  rw [length_filter_lt_length_iff_exists]
  simp [Whole]

theorem concatPieces_eq (hn : ps.length < 4294967296) (hwhole : Whole ps got)
    (hm : ∀ j : UInt32, m.get? j = if j.toNat ∈ got then ps[j.toNat]? else none) :
    concatPieces m (UInt32.ofNat ps.length) = ps.flatten := by
  rw [concatPieces, UInt32.toNat_ofNat_of_lt' hn]
  congr 1
  refine ext_getElem (by simp) fun a ha hb => ?_
  have hlt : a < ps.length := hb
  rw [getElem_map, getElem_range, hm, UInt32.toNat_ofNat_of_lt' (Nat.lt_trans hlt hn),
    if_pos (hwhole a hlt), getElem?_eq_getElem hlt, Option.getD_some]

theorem Holds.absorb_last (h : Holds ps got b pkt.chunkNumber) (hn : ps.length < 4294967296) (hk : Carries ps k pkt)
    (hbefore : ¬Whole ps got) (hafter : Whole ps (k :: got)) : ∃ m, b.absorbSubChunk pkt = (some ps.flatten, m) := by
  obtain ⟨hlt, hpart⟩ := List.getElem?_eq_some_iff.mp hk.part
  have hnone := h.missing hbefore
  by_cases hsub : pkt.subTotal ≤ 1
  · have hone : ps.length ≤ 1 := by
      rw [hk.subTotal] at hsub
      exact (UInt32.ofNat_le_iff_le hn (by decide)).mp hsub
    obtain ⟨p, rfl⟩ := length_eq_one_iff.mp (by omega : ps.length = 1)
    obtain rfl : k = 0 := by simpa using hlt
    obtain rfl : p = pkt.payload := hpart
    exact ⟨_, by rw [absorb_single hnone hsub, flatten_singleton]⟩
  · have hm := get?_addPiece hn hk (h.pieces hbefore)
    rw [absorb_piece hnone hsub (hk.subIndex_lt hn), hk.subTotal,
      if_neg fun hlen => (len_pieces_lt hn hm).mp hlen hafter, concatPieces_eq hn hafter hm]
    exact ⟨_, rfl⟩

theorem Holds.absorb_more (h : Holds ps got b pkt.chunkNumber) (hn : ps.length < 4294967296) (hk : Carries ps k pkt)
    (hafter : ¬Whole ps (k :: got)) : b.absorbSubChunk pkt =
      (none, b.subParts.set pkt.chunkNumber (addPiece (b.piecesOf pkt.chunkNumber) pkt)) := by
  obtain ⟨hlt, -⟩ := List.getElem?_eq_some_iff.mp hk.part
  have hbefore : ¬Whole ps got := fun hw => hafter hw.cons
  have hsub : ¬pkt.subTotal ≤ 1 := by
    intro hsub
    rw [hk.subTotal] at hsub
    have hone : ps.length ≤ 1 := (UInt32.ofNat_le_iff_le hn (by decide)).mp hsub
    exact hafter fun j hj => (by omega : j = k) ▸ mem_cons_self
  have hm := get?_addPiece hn hk (h.pieces hbefore)
  rw [absorb_piece (h.missing hbefore) hsub (hk.subIndex_lt hn), hk.subTotal, if_pos ((len_pieces_lt hn hm).mpr hafter)]

theorem Holds.absorb_done (h : Holds ps got b pkt.chunkNumber) (hbefore : Whole ps got) :
    b.absorbSubChunk pkt = (none, b.subParts) :=
  absorb_received (by rw [h.whole hbefore]; rfl)

theorem Holds.own (h : Holds ps got b pkt.chunkNumber) (hn : ps.length < 4294967296) (hk : Carries ps k pkt) :
    Holds ps (k :: got) (b.record pkt) pkt.chunkNumber := by
  by_cases hbefore : Whole ps got
  · obtain ⟨hchunks, -⟩ := record_none (h.absorb_done hbefore)
    exact ⟨fun _ => hchunks ▸ h.whole hbefore, fun hw => absurd hbefore.cons hw, fun hw => absurd hbefore.cons hw⟩
  · by_cases hafter : Whole ps (k :: got)
    · obtain ⟨m, hm⟩ := h.absorb_last hn hk hbefore hafter
      obtain ⟨hchunks, -⟩ := record_some hm
      exact ⟨fun _ => by rw [hchunks, GoMap.get?_set_self], fun hw => absurd hafter hw, fun hw => absurd hafter hw⟩
    · obtain ⟨hchunks, hsub⟩ := record_none (h.absorb_more hn hk hafter)
      refine ⟨fun hw => absurd hw hafter, fun _ => hchunks ▸ h.missing hbefore, fun _ => ?_⟩
      rw [piecesOf, hsub, GoMap.get?_set_self]
      exact get?_addPiece hn hk (h.pieces hbefore)

theorem Holds.reported (h : Holds ps got b pkt.chunkNumber) (hn : ps.length < 4294967296) (hk : Carries ps k pkt) :
    (b.absorbSubChunk pkt).1.isSome ↔ ¬Whole ps got ∧ Whole ps (k :: got) := by
  by_cases hbefore : Whole ps got
  · simp [h.absorb_done hbefore, hbefore]
  · by_cases hafter : Whole ps (k :: got)
    · obtain ⟨m, hm⟩ := h.absorb_last hn hk hbefore hafter
      simp [hm, hbefore, hafter]
    · simp [h.absorb_more hn hk hafter, hafter]

end Buffers

/-! ### All the fragments -/

/-- The fragments of a transfer or of a block, each as the list of its pieces. The numbers of fragments and
    of pieces fit the fields of a packet. --/
structure Plan where
  parts : List (List Bytes)
  few : parts.length < 4294967296
  nonempty : ∀ ps ∈ parts, ps ≠ []
  fewPieces : ∀ ps ∈ parts, ps.length < 4294967296

def placesOf (i : Nat) (pkts : List Packet) : List Nat :=
  (pkts.filter (·.chunkNumber = UInt32.ofNat i)).map (·.subIndex.toNat)

namespace Plan
variable {plan : Plan} {pkts : List Packet} {pkt : Packet} {b : Buffers} {i : Nat} {ps : List Bytes}

def Fits (plan : Plan) (pkt : Packet) : Prop :=
  ∃ i ps k, plan.parts[i]? = some ps ∧ pkt.chunkNumber = UInt32.ofNat i ∧ Carries ps k pkt

def done (plan : Plan) (pkts : List Packet) : List Nat :=
  (List.range plan.parts.length).filter fun i => decide (Whole (plan.parts.getD i []) (placesOf i pkts))

theorem lt_of_part (h : plan.parts[i]? = some ps) : i < 4294967296 :=
  Nat.lt_trans (lt_of_getElem? h) plan.few

theorem mem_done (h : plan.parts[i]? = some ps) : i ∈ plan.done pkts ↔ Whole ps (placesOf i pkts) := by
  obtain ⟨hlt, rfl⟩ := List.getElem?_eq_some_iff.mp h
  simp [done, hlt]

theorem lt_of_mem_done (h : i ∈ plan.done pkts) : i < plan.parts.length := mem_range.mp (mem_filter.mp h).1

theorem length_done_le (plan : Plan) (pkts : List Packet) : (plan.done pkts).length ≤ plan.parts.length :=
  Nat.le_trans (length_filter_le _ _) (Nat.le_of_eq length_range)

theorem nodup_done (plan : Plan) (pkts : List Packet) : (plan.done pkts).Nodup := List.Nodup.filter _ nodup_range

theorem done_congr {pkts' : List Packet} (h : ∀ pkt, pkt ∈ pkts ↔ pkt ∈ pkts') : plan.done pkts = plan.done pkts' := by
  have hmem : ∀ i k, k ∈ placesOf i pkts ↔ k ∈ placesOf i pkts' := by
    intro i k
    simp only [placesOf, mem_map, mem_filter, h]
  rw [done, done]
  refine filter_congr fun i _ => decide_eq_decide.mpr ?_
  simp only [Whole, hmem]

theorem length_done_of_all (h : ∀ i < plan.parts.length, i ∈ plan.done pkts) :
    (plan.done pkts).length = plan.parts.length := by
  refine Nat.le_antisymm (plan.length_done_le pkts) ?_
  rw [← length_range (n := plan.parts.length)]
  exact (subperm_of_subset nodup_range fun i hi => h i (mem_range.mp hi)).length_le

structure Held (plan : Plan) (pkts : List Packet) (b : Buffers) : Prop where
  slot : ∀ i ps, plan.parts[i]? = some ps → b.Holds ps (placesOf i pkts) (UInt32.ofNat i)
  outside : ∀ i : UInt32, plan.parts.length ≤ i.toNat → b.chunks.get? i = none

@[simp] theorem done_nil (plan : Plan) : plan.done [] = [] := by
  refine eq_nil_iff_forall_not_mem.mpr fun i hi => ?_
  have hlt := lt_of_mem_done hi
  have hpos := length_pos_iff.mpr (plan.nonempty _ (getElem_mem hlt))
  exact absurd ((mem_done (getElem?_eq_getElem hlt)).mp hi 0 hpos) (by simp [placesOf])

theorem held_empty (plan : Plan) : plan.Held [] .empty := by
  refine ⟨fun i ps hps => ?_, fun i _ => GoMap.get?_empty i⟩
  have hnot : ¬Whole ps (placesOf i []) := by simp [← mem_done hps]
  exact ⟨fun hw => absurd hw hnot, fun _ => GoMap.get?_empty _,
    fun _ j => by simp [placesOf, Buffers.piecesOf, Buffers.empty]⟩

theorem placesOf_own {k : Nat} (hi : pkt.chunkNumber = UInt32.ofNat i) (hk : pkt.subIndex.toNat = k) :
    placesOf i (pkt :: pkts) = k :: placesOf i pkts := by
  simp [placesOf, hi, hk]

theorem placesOf_other (hi : pkt.chunkNumber ≠ UInt32.ofNat i) : placesOf i (pkt :: pkts) = placesOf i pkts := by
  simp [placesOf, hi]

theorem Held.record (h : plan.Held pkts b) (hfit : plan.Fits pkt) : plan.Held (pkt :: pkts) (b.record pkt) := by
  obtain ⟨i, ps, k, hps, hi, hk⟩ := hfit
  have hn := plan.fewPieces ps (mem_of_getElem? hps)
  refine ⟨fun j qs hqs => ?_, fun j hj => ?_⟩
  · by_cases hij : pkt.chunkNumber = UInt32.ofNat j
    · obtain rfl : i = j := GoMap.ofNat_inj (lt_of_part hps) (lt_of_part hqs) (hi.symm.trans hij)
      obtain rfl := Option.mem_unique hps hqs
      rw [placesOf_own hi (hk.subIndex_toNat hn), ← hi]
      exact (hi ▸ h.slot i ps hps).own hn hk
    · rw [placesOf_other hij]
      exact (h.slot j qs hqs).other (Ne.symm hij)
  · have hne : j ≠ pkt.chunkNumber := by
      rintro rfl
      rw [hi, UInt32.toNat_ofNat_of_lt' (lt_of_part hps)] at hj
      exact absurd (lt_of_getElem? hps) (Nat.not_lt.mpr hj)
    rw [(b.record_other hne).1]
    exact h.outside j hj

theorem Held.chunk (h : plan.Held pkts b) (hps : plan.parts[i]? = some ps) :
    b.chunks.get? (UInt32.ofNat i) = if i ∈ plan.done pkts then some ps.flatten else none := by
  have hslot := h.slot i ps hps
  split
  · next hmem => exact hslot.whole ((mem_done hps).mp hmem)
  · next hmem => exact hslot.missing fun hw => hmem ((mem_done hps).mpr hw)

theorem Held.chunk_isSome (h : plan.Held pkts b) (j : UInt32) :
    (b.chunks.get? j).isSome ↔ j.toNat ∈ plan.done pkts := by
  by_cases hj : j.toNat < plan.parts.length
  · have hchunk := h.chunk (getElem?_eq_getElem hj)
    rw [UInt32.ofNat_toNat] at hchunk
    rw [hchunk]
    split
    · next hmem => simp [hmem]
    · next hmem => simp [hmem]
  · rw [h.outside j (Nat.not_lt.mp hj)]
    simpa using fun hmem => hj (lt_of_mem_done hmem)

theorem Held.received_len (h : plan.Held pkts b) : b.received.len = (plan.done pkts).length := by
  refine GoMap.len_eq_of_toNat (plan.nodup_done pkts)
    (fun a ha => Nat.lt_trans (lt_of_mem_done ha) plan.few) fun j => ?_
  rw [b.recorded, Option.isSome_map, h.chunk_isSome]

theorem mem_done_mono (h : i ∈ plan.done pkts) : i ∈ plan.done (pkt :: pkts) := by
  have hps := getElem?_eq_getElem (lt_of_mem_done h)
  rw [mem_done hps] at h ⊢
  by_cases hi : pkt.chunkNumber = UInt32.ofNat i
  · rw [placesOf_own hi rfl]
    exact h.cons
  · rwa [placesOf_other hi]

theorem Held.reported (h : plan.Held pkts b) (hfit : plan.Fits pkt) (hi : i < plan.parts.length) :
    (b.absorbSubChunk pkt).1.isSome ∧ pkt.chunkNumber = UInt32.ofNat i ↔
      i ∉ plan.done pkts ∧ i ∈ plan.done (pkt :: pkts) := by
  obtain ⟨j, ps, k, hps, hj, hk⟩ := hfit
  have hn := plan.fewPieces ps (mem_of_getElem? hps)
  by_cases hij : pkt.chunkNumber = UInt32.ofNat i
  · obtain rfl : j = i := GoMap.ofNat_inj (lt_of_part hps) (Nat.lt_trans hi plan.few) (hj.symm.trans hij)
    have hslot : b.Holds ps (placesOf j pkts) pkt.chunkNumber := hj ▸ h.slot j ps hps
    rw [hslot.reported hn hk, mem_done hps, mem_done hps, placesOf_own hj (hk.subIndex_toNat hn)]
    simp [hij]
  · have hsame : i ∈ plan.done (pkt :: pkts) ↔ i ∈ plan.done pkts := by
      rw [mem_done (getElem?_eq_getElem hi), mem_done (getElem?_eq_getElem hi), placesOf_other hij]
    simp [hij, hsame]

theorem Held.recordAll {more : List Packet} (h : plan.Held pkts b) (hfit : ∀ pkt ∈ more, plan.Fits pkt) :
    plan.Held (more.reverse ++ pkts) (b.recordAll more).1 := by
  induction more generalizing b pkts with
  | nil => exact h
  | cons pkt more ih =>
    rw [reverse_cons, append_assoc]
    exact ih (h.record (hfit pkt mem_cons_self)) fun q hq => hfit q (mem_cons_of_mem pkt hq)

theorem mem_done_append {more : List Packet} (h : i ∈ plan.done pkts) : i ∈ plan.done (more ++ pkts) := by
  induction more with
  | nil => exact h
  | cons pkt more ih => exact mem_done_mono ih

theorem Held.count_reports {more : List Packet} (h : plan.Held pkts b) (hfit : ∀ pkt ∈ more, plan.Fits pkt)
    (hi : i < plan.parts.length) : (b.recordAll more).2.count (UInt32.ofNat i) =
      if i ∉ plan.done pkts ∧ i ∈ plan.done (more.reverse ++ pkts) then 1 else 0 := by
  induction more generalizing b pkts with
  | nil => simp [Buffers.recordAll]
  | cons pkt more ih =>
    have hpkt := hfit pkt mem_cons_self
    have hrest := ih (h.record hpkt) fun q hq => hfit q (mem_cons_of_mem pkt hq)
    have hrep := h.reported hpkt hi
    have hlast : i ∈ plan.done (pkt :: pkts) → i ∈ plan.done (more.reverse ++ pkt :: pkts) := mem_done_append
    rw [Buffers.recordAll, reverse_cons, append_assoc, singleton_append]
    by_cases hnow : (b.absorbSubChunk pkt).1.isSome ∧ pkt.chunkNumber = UInt32.ofNat i
    · obtain ⟨hbefore, hafter⟩ := hrep.mp hnow
      simp [hnow.1, hnow.2, hrest, hbefore, hafter, hlast hafter]
    · have hskip : (if (b.absorbSubChunk pkt).1.isSome then pkt.chunkNumber :: ((b.record pkt).recordAll more).2
          else ((b.record pkt).recordAll more).2).count (UInt32.ofNat i) =
            ((b.record pkt).recordAll more).2.count (UInt32.ofNat i) := by
        split
        · next hsome => rw [count_cons_of_ne fun heq => hnow ⟨hsome, heq⟩]
        · rfl
      have hiff : i ∈ plan.done pkts ↔ i ∈ plan.done (pkt :: pkts) :=
        ⟨mem_done_mono, fun hafter => by_contra fun hbefore => hnow (hrep.mpr ⟨hbefore, hafter⟩)⟩
      simp only [hskip, hrest, hiff]

end Plan
end SyncSwarm.Transfer
