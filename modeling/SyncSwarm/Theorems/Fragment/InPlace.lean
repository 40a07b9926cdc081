import Mathlib.Data.Set.Function
import SyncSwarm.Theorems.Ingest.Intact

/-! Fragments of many transfers under one key: each opens only as the part of its transfer that it was sealed as. -/

namespace SyncSwarm.Fragment
open Lib Protocol Transfer List

variable {rs : ReedSolomon} {s : Sealer}

/-- How a transfer is fragmented. --/
inductive Cut where
  | chunks (chunkSize : Int) (pos : 0 < chunkSize)
  | shards (dataShards parityShards : Int) (pos : 0 < dataShards ∧ 0 < parityShards)

def Cut.fragment (rs : ReedSolomon) (s : Sealer) (draw : Nat) (id : TransferID) (data : Bytes) :
    Cut → Except String (List Fragment)
  | .chunks chunkSize pos => Fragmenter.fragment ⟨s, chunkSize, pos⟩ draw id data
  | .shards dataShards parityShards pos =>
    (RSFragmenter.fragment ⟨s, dataShards, parityShards, pos⟩ rs draw id data).map (·.1)

/-- A transfer and the fragments that were made of it. --/
structure Fragmented (rs : ReedSolomon) (s : Sealer) where
  id : TransferID
  data : Bytes
  cut : Cut
  draw : Nat
  frags : List Fragment
  made : cut.fragment rs s draw id data = .ok frags

/-- An ideal AEAD: what was sealed for the transfers opens with the same associated data, and nothing else opens. --/
structure Ideal (sent : Set (Fragmented rs s)) : Prop where
  undoes : Undoes (some s) (some s)
  only : ∀ sealed a plain, s.openBytes sealed a = .ok plain →
    ∃ t ∈ sent, ∃ frag ∈ t.frags, frag.payload = sealed ∧ aad t.id frag.index frag.total = a

theorem Ideal.binds {sent : Set (Fragmented rs s)} (h : Ideal sent) (hone : Set.InjOn Fragmented.id sent)
    {t : Fragmented rs s} (ht : t ∈ sent) : s.Binds t.id t.frags := by
  intro sealed i total plain hopen
  obtain ⟨u, hu, frag, hfrag, hpayload, haad⟩ := h.only _ _ _ hopen
  obtain rfl := hone hu ht (aad_inj haad).1
  exact ⟨frag, hfrag, hpayload, haad⟩

/-- Fragments that are refused are passed over. --/
def Reassembler.addAll (r : Reassembler) (frags : List Fragment) : Reassembler :=
  frags.foldl (fun r frag => (r.add frag).toOption.getD r) r

theorem Reassembler.addAll_eq (r : Reassembler) (frags : List Fragment) :
    ∃ parts, r.addAll frags = { r with parts } := by
  induction frags generalizing r with
  | nil => exact ⟨r.parts, rfl⟩
  | cons frag frags ih =>
    rw [addAll, foldl_cons, add]
    cases addPart r.total r.parts frag with
    | error e => exact ih r
    | ok parts => exact ih { r with parts }

namespace RSReassembler

/-- Fragments that are refused are passed over. --/
def addAll (r : RSReassembler) (frags : List Fragment) : RSReassembler :=
  frags.foldl (fun r frag => (r.add frag).toOption.getD r) r

theorem addAll_eq (r : RSReassembler) (frags : List Fragment) : ∃ parts, r.addAll frags = { r with parts } := by
  induction frags generalizing r with
  | nil => exact ⟨r.parts, rfl⟩
  | cons frag frags ih =>
    rw [addAll, foldl_cons, add]
    cases addPart r.total r.parts frag with
    | error e => exact ih r
    | ok parts => exact ih { r with parts }

/-- How many places hold the payload that one of the fragments has for them. --/
def genuine (r : RSReassembler) (frags : List Fragment) : Nat :=
  (List.range r.total.toNat).countP fun i =>
    frags.any fun frag => frag.index = UInt32.ofNat i ∧ r.parts.get? (UInt32.ofNat i) = some frag.payload

variable {r : RSReassembler} {id : TransferID} {frags : List Fragment} {parts : List Bytes}

theorem plain?_isSome_iff (hbinds : s.Binds id frags) (hf : FragmentsOf (some s) id parts frags)
    (htotal : r.total = UInt32.ofNat parts.length) (i : Nat) : (r.plain? s id i).isSome ↔
      ∃ frag ∈ frags, frag.index = UInt32.ofNat i ∧ r.parts.get? (UInt32.ofNat i) = some frag.payload := by
  simp only [Option.isSome_iff_exists, plain?_eq_some]
  constructor
  · rintro ⟨plain, sealed, hget, hopen⟩
    obtain ⟨frag, hfrag, rfl, haad⟩ := hbinds _ _ _ _ hopen
    exact ⟨frag, hfrag, (aad_inj haad).2.1, hget⟩
  · rintro ⟨frag, hfrag, hindex, hget⟩
    obtain ⟨j, hj⟩ := mem_iff_getElem?.mp hfrag
    obtain ⟨hplace, -, part, -, hopens⟩ := hf.place j frag hj
    refine ⟨part, frag.payload, hget, ?_⟩
    rw [htotal, ← hindex, hplace]
    exact hopens

theorem openShards_genuine (hbinds : s.Binds id frags) (hf : FragmentsOf (some s) id parts frags)
    (htotal : r.total = UInt32.ofNat parts.length) : (r.openShards s id).2 = r.genuine frags := by
  simp only [openShards, genuine, countP_map]
  refine countP_congr fun i _ => ?_
  simpa using plain?_isSome_iff hbinds hf htotal i

theorem reconstruct_few (hs : r.sealer = some s) (hfew : (r.openShards s id).2 < r.dataShards) :
    ∃ e, r.reconstruct rs id = .error (.error e) := by
  rw [reconstruct, hs]
  cases rs.new r.dataShards r.parityShards with
  | error e => exact ⟨_, rfl⟩
  | ok _ =>
    refine ⟨errTooFewShards, ?_⟩
    simp [bind, Except.bind, pure, Except.pure, hfew, throw, throwThe, MonadExceptOf.throw]

end RSReassembler

/-- Whatever fragments are added, in whatever order: of a transfer with fewer than 2^32 chunks `Assemble` returns the
    payload or an error. Of a coded one `Reconstruct` returns the payload when enough of the stored shards are genuine,
    and otherwise an error. --/
theorem opens_in_place (hrs : rs.Lawful) {sent : Set (Fragmented rs s)} (hideal : Ideal sent)
    (hone : Set.InjOn Fragmented.id sent) {t : Fragmented rs s} (ht : t ∈ sent) (added : List Fragment) :
    (∀ chunkSize pos total, t.cut = .chunks chunkSize pos → (split t.data chunkSize).length < 4294967296 → total ≠ 0 →
      (∃ e, ((newReassembler s total).addAll added).assemble t.id = .error e) ∨
      ((newReassembler s total).addAll added).assemble t.id = .ok t.data) ∧
    ∀ dataShards parityShards pos, t.cut = .shards dataShards parityShards pos →
      let r := (newRSReassembler (some s) dataShards.toNat parityShards.toNat t.data.length).addAll added
      (dataShards.toNat ≤ r.genuine t.frags → r.reconstruct rs t.id = .ok t.data) ∧
      (r.genuine t.frags < dataShards.toNat → ∃ e, r.reconstruct rs t.id = .error (.error e)) := by
  have hbinds := hideal.binds hone ht
  have hmade := t.made
  constructor
  · intro chunkSize pos total hcut hfew htotal
    rw [hcut] at hmade
    have hf := fragmentsOf_sealParts hideal.undoes hmade
    obtain ⟨parts, hadded⟩ := (newReassembler s total).addAll_eq added
    rw [hadded]
    cases hres : Reassembler.assemble { newReassembler s total with parts } t.id with
    | error e => exact .inl ⟨e, rfl⟩
    | ok data =>
      rw [Reassembler.assemble] at hres
      split at hres
      · obtain ⟨ps, hps, rfl⟩ := map_eq_ok.mp hres
        obtain ⟨hlen, hopen⟩ := openAll_range_ok_iff.mp hps
        rw [hbinds.all_parts hf (hf.length ▸ hfew) htotal hlen hopen, join_split pos]
        exact .inr rfl
      · cases hres
  · intro dataShards parityShards pos hcut
    rw [hcut] at hmade
    obtain ⟨⟨_, origLen⟩, hfragment, rfl⟩ := map_eq_ok.mp hmade
    obtain ⟨-, shards, hshards, hf⟩ := RSFragmenter.fragment_spec hideal.undoes hfragment
    have hlen := hrs.length hshards
    have hsmall : shards.length < 4294967296 := by
      have := hrs.few (ReedSolomon.new_of_shards hshards)
      omega
    obtain ⟨parts, hadded⟩ :=
      (newRSReassembler (some s) dataShards.toNat parityShards.toNat t.data.length).addAll_eq added
    rw [hadded]
    have htotal : UInt32.ofNat (dataShards.toNat + parityShards.toNat) = UInt32.ofNat shards.length :=
      congrArg UInt32.ofNat hlen.symm
    intro r
    have hcount := RSReassembler.openShards_genuine (r := r) hbinds hf htotal
    constructor
    · intro hgenuine
      have hright := RSReassembler.reconstruct_of_plain hrs (r := r) rfl hshards
        ((congrArg UInt32.toNat htotal).trans (UInt32.toNat_ofNat_of_lt' hsmall))
          (fun _ => hbinds.plain? hf (hf.length ▸ hsmall) r)
        (hcount ▸ hgenuine) rfl (Nat.le_refl _)
      rwa [take_length] at hright
    · intro hfew
      exact RSReassembler.reconstruct_few rfl (hcount ▸ hfew)

namespace Mixed
open Transfer.Sample (transferID shard)
open Transfer.Receiver.Carried (bound undoes_bound binds_bound)

def coded : Fragmented copies bound where
  id := transferID
  data := [1, 2, 3]
  cut := .shards 1 1 (by decide)
  draw := 0
  frags := [shard 0, shard 1]
  made := by rfl

theorem ideal_bound : Ideal {coded} := by
  refine ⟨undoes_bound, fun sealed a plain h => ⟨coded, rfl, ?_⟩⟩
  have hopen := h
  simp only [bound] at hopen
  split at hopen
  next hmade =>
    obtain ⟨rfl | rfl, -⟩ := hmade
    · exact binds_bound sealed 0 2 plain h
    · exact binds_bound sealed 1 2 plain h
  · cases hopen

def zeros : Bytes := List.replicate 4294967297 0

/-- The AEAD of a payload of 2^32 + 1 chunks of one byte, whose number is 1 in 32 bits. --/
noncomputable def wrapping : Sealer where
  sealBytes _ plain a :=
    @ite _ (plain = [0] ∧ ∃ i, a = aad transferID i 1) (Classical.propDecidable _) (.ok (a ++ plain))
      (.error "cipher: no randomness")
  openBytes sealed a :=
    @ite _ ((∃ i, a = aad transferID i 1) ∧ sealed = a ++ [0]) (Classical.propDecidable _) (.ok [0])
      (.error "cipher: message authentication failed")

theorem sealBytes_wrapping (draw : Nat) (i : UInt32) :
    wrapping.sealBytes draw [0] (aad transferID i 1) = .ok (aad transferID i 1 ++ [0]) :=
  if_pos ⟨rfl, i, rfl⟩

theorem split_zeros : split zeros 1 = List.replicate 4294967297 [0] := by
  have hcount : chunkCount 1 zeros.length = 4294967297 := (chunkCount_one _).trans length_replicate
  rw [split_of_pos (by decide), show (1 : Int).toNat = 1 from rfl]
  refine eq_replicate_iff.mpr ⟨(length_chunks 1 zeros).trans hcount, fun chunk hchunk => ?_⟩
  obtain ⟨i, hi, rfl⟩ := mem_chunks hchunk
  rw [zeros, drop_replicate, take_replicate, Nat.min_eq_left (by omega)]
  rfl

theorem sealParts_wrapping (i n : Nat) :
    ∃ frags, sealParts wrapping 0 transferID "chunk" 1 i (List.replicate n [0]) = .ok frags := by
  induction n generalizing i with
  | zero => exact ⟨[], rfl⟩
  | succ n ih =>
    obtain ⟨rest, hrest⟩ := ih (i + 1)
    exact ⟨_, by rw [replicate_succ, sealParts, sealBytes_wrapping, hrest]; rfl⟩

theorem undoes_wrapping : Undoes (some wrapping) (some wrapping) := by
  intro draw plain a sealed h
  simp only [wrapping] at h ⊢
  split at h
  next hplain =>
    cases h
    rw [hplain.1, if_pos ⟨hplain.2, rfl⟩]
  · cases h

end Mixed

open Mixed Transfer.Sample in
theorem opens_in_place_relabelled : Ideal {coded} ∧
    ((newRSReassembler (some Receiver.Carried.bound) 1 1 3).addAll [{ shard 1 with index := 0 }, shard 1]).reconstruct
      copies transferID =
      .ok [1, 2, 3] :=
  ⟨ideal_bound, ((opens_in_place copies_lawful ideal_bound (Set.injOn_singleton _ _) (Set.mem_singleton coded)
    [{ shard 1 with index := 0 }, shard 1]).2 1 1 (by decide) rfl).1 (by decide +kernel)⟩

open Mixed Transfer.Sample in
/-- Of a payload of 2^32 + 1 chunks the first one alone is taken for the whole. --/
theorem wrapped_chunk_assembled :
    ∃ t : Fragmented copies wrapping, Ideal {t} ∧ t.cut = .chunks 1 (by decide) ∧ t.data = zeros ∧
    ∃ frag ∈ t.frags, ((newReassembler wrapping 1).addAll [frag]).assemble t.id = .ok [0] := by
  obtain ⟨frags, hfrags⟩ := sealParts_wrapping 0 4294967297
  have hmade : (Cut.chunks 1 (by decide)).fragment copies wrapping 0 transferID zeros = .ok frags := by
    rw [Cut.fragment, Fragmenter.fragment, split_zeros, length_replicate]
    exact hfrags
  obtain ⟨hlen, hplace⟩ := sealParts_spec hfrags
  rw [length_replicate] at hlen
  -- Every index of 32 bits is that of a fragment, which holds one zero.
  have hfrag : ∀ i : UInt32, ∃ frag ∈ frags, frag.index = i ∧ frag.total = 1 ∧
      frag.payload = aad transferID i 1 ++ [0] := by
    intro i
    have hi : i.toNat < frags.length := hlen ▸ Nat.lt_trans i.toNat_lt (by decide)
    obtain ⟨part, hpart, hindex, htotal, hseal⟩ := hplace i.toNat _ (getElem?_eq_getElem hi)
    obtain rfl := eq_of_mem_replicate (mem_of_getElem? hpart)
    simp only [Nat.zero_add, UInt32.ofNat_toNat, sealBytes_wrapping] at hindex hseal
    exact ⟨_, getElem_mem hi, hindex, htotal, (Except.ok.inj hseal).symm⟩
  refine ⟨⟨transferID, zeros, .chunks 1 (by decide), 0, frags, hmade⟩,
    ⟨undoes_wrapping, fun sealed a plain h => ⟨_, rfl, ?_⟩⟩, rfl, rfl, ?_⟩
  · simp only [wrapping] at h
    split at h
    next hopen =>
      obtain ⟨⟨i, rfl⟩, rfl⟩ := hopen
      obtain ⟨frag, hmem, rfl, htotal, hpayload⟩ := hfrag i
      exact ⟨frag, hmem, hpayload, by rw [htotal]⟩
    · cases h
  · obtain ⟨frag, hmem, hindex, htotal, hpayload⟩ := hfrag 0
    refine ⟨frag, hmem, ?_⟩
    have hopen : wrapping.openBytes frag.payload (aad transferID 0 1) = .ok [0] := if_pos ⟨⟨0, rfl⟩, hpayload⟩
    have hadd : (newReassembler wrapping 1).addAll [frag] =
        ⟨wrapping, 1, (∅ : GoMap UInt32 Bytes).set 0 frag.payload⟩ := by
      simp [Reassembler.addAll, Reassembler.add, addPart, newReassembler, hindex, htotal, Except.map, Except.toOption]
    rw [hadd, Reassembler.assemble, if_pos (by rfl)]
    refine map_eq_ok.mpr ⟨[[0]], openAll_ok_iff.mpr (.cons ?_ .nil), rfl⟩
    exact hopen

end SyncSwarm.Fragment
