import SyncSwarm.Theorems.Transfer.Assembly
import SyncSwarm.Theorems.Fragment.Sealed

/-! From fragments back to data: sealed chunks, plain chunks and shards. -/

namespace SyncSwarm.Transfer
open Lib Protocol Fragment List

/-! ### Chunks -/

theorem addAll_spec (s : Sealer) (id : TransferID) (total : UInt32) (chunk : Nat → Bytes) {n : Nat}
    (hn : n ≤ total.toNat) :
    ∃ r : Reassembler, (List.range n).foldlM
        (fun r i => r.add { transferID := id, index := UInt32.ofNat i, total, payload := chunk i })
        (newReassembler s total) = .ok r ∧ r.sealer = s ∧ r.total = total ∧
      ∀ j : UInt32, r.parts.get? j = if j.toNat < n then some (chunk j.toNat) else none := by
  induction n with
  | zero => exact ⟨newReassembler s total, rfl, rfl, rfl, fun j => by simp [newReassembler]⟩
  | succ n ih =>
    obtain ⟨r, hr, hs, ht, hparts⟩ := ih (by omega)
    have hnat : (UInt32.ofNat n).toNat = n :=
      UInt32.toNat_ofNat_of_lt' (Nat.lt_of_lt_of_le hn (Nat.le_of_lt total.toNat_lt))
    have hadd : r.add { transferID := id, index := UInt32.ofNat n, total, payload := chunk n } =
        .ok { r with parts := r.parts.set (UInt32.ofNat n) (chunk n) } := by
      have hindex : ¬total ≤ UInt32.ofNat n := by
        rw [UInt32.le_iff_toNat_le, hnat]
        omega
      simp [Reassembler.add, addPart, ht, hindex, hparts, hnat, Except.map]
    refine ⟨{ r with parts := r.parts.set (UInt32.ofNat n) (chunk n) }, ?_, hs, ht, fun j => ?_⟩
    · rw [range_succ, foldlM_append, hr]
      simp only [foldlM_cons, foldlM_nil, bind_eq_ok]
      exact ⟨r, rfl, _, hadd, rfl⟩
    · rw [GoMap.get?_set, hparts]
      by_cases hj : j = UInt32.ofNat n
      · subst hj
        rw [if_pos rfl, hnat, if_pos (by omega)]
      · have hne : j.toNat ≠ n := fun h => hj (by rw [← h, UInt32.ofNat_toNat])
        rw [if_neg hj]
        simp only [Nat.lt_succ_iff_lt_or_eq, hne, or_false]

variable {id : TransferID} {chunks : GoMap UInt32 Bytes}

theorem reassembleChunks_sealed {s : Sealer} {total : UInt32} {data : Bytes} :
    reassembleChunks (some s) id total chunks = .ok data ↔ ∃ ps, ps.length = total.toNat ∧ join ps = data ∧
      ∀ i p, ps[i]? = some p →
        s.openBytes ((chunks.get? (UInt32.ofNat i)).getD []) (aad id (UInt32.ofNat i) total) = .ok p := by
  obtain ⟨r, hr, hs, ht, hparts⟩ :=
    addAll_spec s id total (fun i => (chunks.get? (UInt32.ofNat i)).getD []) (Nat.le_refl total.toNat)
  have hlen : r.parts.len = total.toNat := by
    rw [← length_range (n := total.toNat)]
    refine GoMap.len_eq_of_toNat nodup_range (fun a ha => Nat.lt_trans (mem_range.mp ha) total.toNat_lt) fun j => ?_
    by_cases hj : j.toNat < total.toNat
    · simp [hparts, hj]
    · simp [hparts, hj]
  have hcomplete : r.complete = true := by simp [Reassembler.complete, hlen, ht]
  have hassemble : reassembleChunks (some s) id total chunks = r.assemble id := by
    simp only [reassembleChunks, hr]
    rfl
  have hpart : ∀ i < total.toNat, (r.parts.get? (UInt32.ofNat i)).getD [] = (chunks.get? (UInt32.ofNat i)).getD [] := by
    intro i hi
    rw [hparts, UInt32.toNat_ofNat_of_lt' (Nat.lt_trans hi total.toNat_lt), if_pos hi, Option.getD_some]
  rw [hassemble, Reassembler.assemble, if_pos hcomplete, map_eq_ok, ht]
  simp only [openAll_range_ok_iff, hs, ht, and_assoc]
  refine exists_congr fun ps => and_congr_right fun hps => ?_
  rw [and_comm]
  refine and_congr_right fun _ => forall_congr' fun i => forall_congr' fun p => forall_congr' fun hp => ?_
  rw [hpart i (hps ▸ lt_of_getElem? hp)]

theorem reassembleChunks_plain {total : UInt32} :
    reassembleChunks none id total chunks =
      .ok (join ((List.range total.toNat).map fun i => (chunks.get? (UInt32.ofNat i)).getD [])) := rfl

theorem reassembleChunks_of_opens {opener : Option Sealer} {parts : List Bytes} (hfew : parts.length < 4294967296)
    (h : ∀ i part, parts[i]? = some part → ∃ payload, chunks.get? (UInt32.ofNat i) = some payload ∧
      Opens opener (aad id (UInt32.ofNat i) (UInt32.ofNat parts.length)) payload part) :
    reassembleChunks opener id (UInt32.ofNat parts.length) chunks = .ok (join parts) := by
  have htotal : (UInt32.ofNat parts.length).toNat = parts.length := UInt32.toNat_ofNat_of_lt' hfew
  cases opener with
  | none =>
    rw [reassembleChunks_plain, htotal]
    congr 2
    refine ext_getElem (by simp) fun i _ hi => ?_
    obtain ⟨payload, hpayload, hopen⟩ := h i _ (getElem?_eq_getElem hi)
    obtain rfl : payload = parts[i] := hopen
    simp [hpayload]
  | some s =>
    refine reassembleChunks_sealed.mpr ⟨parts, htotal.symm, rfl, fun i part hpart => ?_⟩
    obtain ⟨payload, hpayload, hopen⟩ := h i part hpart
    rw [hpayload]
    exact hopen

/-! ### Shards -/

section AddShards
variable {r : RSReassembler} {id : TransferID} {total : UInt32}

theorem add_getD (i : UInt32) (payload : Bytes) :
    (r.add { transferID := id, index := i, total, payload }).toOption.getD r =
      { r with
        parts := if total = r.total ∧ i < total ∧ r.parts.get? i = none then r.parts.set i payload else r.parts } := by
  by_cases ht : total = r.total
  · by_cases hi : r.total ≤ i
    · simp [RSReassembler.add, addPart, ht, hi, Except.map, Except.toOption, UInt32.not_lt.mpr hi]
    · cases hget : r.parts.get? i with
      | none => simp [RSReassembler.add, addPart, ht, hi, hget, Except.map, Except.toOption, UInt32.not_le.mp hi]
      | some p => simp [RSReassembler.add, addPart, ht, hi, hget, Except.map, Except.toOption]
  · simp [RSReassembler.add, addPart, ht, Except.map, Except.toOption]

theorem foldl_add (es : List (UInt32 × Bytes)) : ∃ parts,
    es.foldl (fun r e => (r.add { transferID := id, index := e.1, total, payload := e.2 }).toOption.getD r) r =
      { r with parts } ∧
    ∀ j, parts.get? j = (r.parts.get? j).or (if total = r.total ∧ j < total then es.lookup j else none) := by
  induction es generalizing r with
  | nil => exact ⟨r.parts, rfl, fun j => by simp⟩
  | cons e es ih =>
    obtain ⟨i, payload⟩ := e
    rw [foldl_cons, add_getD]
    obtain ⟨parts, heq, hparts⟩ := @ih { r with parts := _ }
    refine ⟨parts, heq, fun j => ?_⟩
    dsimp only at hparts
    rw [hparts, lookup_cons]
    by_cases hj : j = i
    · subst hj
      rw [beq_self_eq_true]
      -- The first shard of an index stays.
      cases hget : r.parts.get? j with
      | none =>
        by_cases hok : total = r.total ∧ j < total
        · rw [if_pos ⟨hok.1, hok.2, rfl⟩, if_pos hok, if_pos hok, GoMap.get?_set_self]
          rfl
        · rw [if_neg fun h => hok ⟨h.1, h.2.1⟩, if_neg hok, if_neg hok, hget]
      | some p =>
        rw [if_neg fun h => by simp at h, hget]
        rfl
    · rw [beq_false_of_ne hj]
      split
      · rw [GoMap.get?_set_ne _ _ hj]
      · rfl

theorem addShards_spec (id : TransferID) (total : UInt32) (chunks : GoMap UInt32 Bytes) (hempty : r.parts = ∅) :
    ∃ parts,
    addShards r id total chunks = { r with parts } ∧
      ∀ j, parts.get? j = if total = r.total ∧ j < total then chunks.get? j else none := by
  obtain ⟨parts, heq, hparts⟩ := foldl_add chunks.entries
  refine ⟨parts, heq, fun j => ?_⟩
  rw [hparts, hempty, GoMap.get?_empty, Option.none_or, GoMap.lookup_entries]

end AddShards

/-! ### Fragments from the buffers -/

def planOf (frags : List Fragment) (sub : Int) (hfew : frags.length < 4294967296)
    (hpieces : ∀ frag ∈ frags, (fragmentPieces frag sub).length < 4294967296) : Plan where
  parts := frags.map (pieceParts · sub)
  few := by simpa using hfew
  nonempty ps hps := by
    obtain ⟨frag, -, rfl⟩ := mem_map.mp hps
    exact pieceParts_ne_nil frag sub
  fewPieces ps hps := by
    obtain ⟨frag, hfrag, rfl⟩ := mem_map.mp hps
    simpa [fragmentPieces_eq] using hpieces frag hfrag

@[simp] theorem length_planOf {frags : List Fragment} {sub : Int} (hfew : frags.length < 4294967296)
    (hpieces : ∀ frag ∈ frags, (fragmentPieces frag sub).length < 4294967296) :
    (planOf frags sub hfew hpieces).parts.length = frags.length := by
  simp [planOf]

section Held
variable {frags : List Fragment} {sub : Int} {hfew : frags.length < 4294967296}
  {hpieces : ∀ frag ∈ frags, (fragmentPieces frag sub).length < 4294967296} {pkts : List Packet} {b : Buffers}
  {opener : Option Sealer} {id : TransferID} {parts : List Bytes} {i : Nat}

theorem chunk_of_held (hb : (planOf frags sub hfew hpieces).Held pkts b) {frag : Fragment}
    (hfrag : frags[i]? = some frag) :
    b.chunks.get? (UInt32.ofNat i) =
      if i ∈ (planOf frags sub hfew hpieces).done pkts then some frag.payload else none := by
  have hpart : (planOf frags sub hfew hpieces).parts[i]? = some (pieceParts frag sub) := by simp [planOf, hfrag]
  rw [hb.chunk hpart, flatten_pieceParts]

theorem opens_of_held (hb : (planOf frags sub hfew hpieces).Held pkts b) (hf : FragmentsOf opener id parts frags)
    (hi : i ∈ (planOf frags sub hfew hpieces).done pkts) :
    ∃ payload part, b.chunks.get? (UInt32.ofNat i) = some payload ∧
      parts[i]? = some part ∧ Opens opener (aad id (UInt32.ofNat i) (UInt32.ofNat parts.length)) payload part := by
  have hlt : i < frags.length := by simpa using Plan.lt_of_mem_done hi
  have hfrag := getElem?_eq_getElem hlt
  obtain ⟨part, hpart, hopen⟩ := (hf.place i _ hfrag).opens
  exact ⟨_, part, by rw [chunk_of_held hb hfrag, if_pos hi], hpart, hopen⟩

end Held

theorem reconstruct_of_opened {rs : ReedSolomon} (hrs : rs.Lawful) {chunks : GoMap UInt32 Bytes} {s : Sealer}
    {id : TransferID} {d p n : Nat} {data : Bytes} {shards : List Bytes} {got : List Nat}
    (hshards : rs.shards d p data = .ok shards) (hsmall : shards.length < 4294967296) (hgot : got.Nodup)
    (hd : d ≤ got.length) (hmissing : ∀ i < shards.length, i ∉ got → chunks.get? (UInt32.ofNat i) = none)
    (hopens : ∀ i ∈ got, ∃ payload part, chunks.get? (UInt32.ofNat i) = some payload ∧ shards[i]? = some part ∧
      Opens (some s) (aad id (UInt32.ofNat i) (UInt32.ofNat shards.length)) payload part)
    (hn : n ≤ data.length) :
    (addShards (newRSReassembler (some s) d p n) id (UInt32.ofNat shards.length) chunks).reconstruct rs id =
      .ok (data.take n) := by
  have htotal : (UInt32.ofNat (d + p)).toNat = shards.length := by
    rw [← hrs.length hshards, UInt32.toNat_ofNat_of_lt' hsmall]
  obtain ⟨parts, hadd, hparts⟩ :=
    addShards_spec (r := newRSReassembler (some s) d p n) id (UInt32.ofNat shards.length) chunks rfl
  have hpart : ∀ i < shards.length, parts.get? (UInt32.ofNat i) = chunks.get? (UInt32.ofNat i) := by
    intro i hi
    rw [hparts, if_pos
      ⟨by rw [hrs.length hshards]; rfl, (UInt32.ofNat_lt_iff_lt (Nat.lt_trans hi hsmall) hsmall).mpr hi⟩]
  have hopened : ∀ i ∈ got, i < shards.length ∧
      RSReassembler.plain? { newRSReassembler (some s) d p n with parts } s id i = shards[i]? := by
    intro i hi
    obtain ⟨payload, shard, hchunk, hshard, hopen⟩ := hopens i hi
    have hlt := lt_of_getElem? hshard
    rw [hrs.length hshards] at hopen
    refine ⟨hlt, ?_⟩
    rw [hshard, RSReassembler.plain?_eq_some]
    exact ⟨payload, (hpart i hlt).trans hchunk, hopen⟩
  rw [hadd]
  refine RSReassembler.reconstruct_of_plain hrs rfl hshards htotal (fun i hi => ?_) ?_ rfl hn
  · by_cases hdone : i ∈ got
    · exact .inr (hopened i hdone).2
    · exact .inl (by simp [RSReassembler.plain?, hpart i hi, hmissing i hi hdone])
  · refine Nat.le_trans hd ?_
    rw [RSReassembler.openShards, countP_map, countP_eq_length_filter]
    refine (subperm_of_subset hgot fun i hi => ?_).length_le
    obtain ⟨hlt, hplain⟩ := hopened i hi
    simp only [mem_filter, mem_range, Function.comp_apply, hplain, getElem?_eq_getElem hlt,
      Option.isSome_some, and_true]
    exact Nat.lt_of_lt_of_eq hlt htotal.symm

theorem reconstruct_of_held {rs : ReedSolomon} (hrs : rs.Lawful) {frags : List Fragment} {sub : Int}
    {hfew : frags.length < 4294967296} {hpieces : ∀ frag ∈ frags, (fragmentPieces frag sub).length < 4294967296}
    {pkts : List Packet} {b : Buffers} {s : Sealer} {id : TransferID} {d p n : Nat} {data : Bytes} {shards : List Bytes}
    (hb : (planOf frags sub hfew hpieces).Held pkts b) (hshards : rs.shards d p data = .ok shards)
    (hf : FragmentsOf (some s) id shards frags) (hd : d ≤ ((planOf frags sub hfew hpieces).done pkts).length)
    (hn : n ≤ data.length) :
    (addShards (newRSReassembler (some s) d p n) id (UInt32.ofNat shards.length) b.chunks).reconstruct rs id =
      .ok (data.take n) := by
  refine reconstruct_of_opened hrs hshards (hf.length ▸ hfew) (Plan.nodup_done _ _) hd (fun i hi hdone => ?_)
    (fun i hi => opens_of_held hb hf hi) hn
  rw [chunk_of_held hb (getElem?_eq_getElem (hf.length ▸ hi)), if_neg hdone]

end SyncSwarm.Transfer
