import SyncSwarm.Transfer.Stream
import SyncSwarm.Theorems.Transfer.RoundTrip

/-! What a stream consists of: its blocks in order, each with the fragments it was sent in. -/

namespace SyncSwarm.Transfer
open Lib Protocol Fragment List

/-- A block with its shards and their fragments. --/
structure CodedBlock (rs : ReedSolomon) (d p : Nat) (s : Sealer) (id : TransferID) (sub : Int) where
  index : UInt32
  data : Bytes
  final : Bool
  shards : List Bytes
  frags : List Fragment
  dataShards_pos : 0 < d
  coded : rs.shards d p (padTo d data) = .ok shards
  fragments : FragmentsOf (some s) id shards frags
  tagged : ∀ frag ∈ frags, frag.blockIndex = index ∧ frag.blockLen = UInt32.ofNat data.length ∧ frag.final = final
  few : frags.length < 4294967296
  pieces : ∀ frag ∈ frags, (fragmentPieces frag sub).length < 4294967296

/-- The blocks that a stream is cut into; an empty stream is one empty block. --/
def Config.blocksOf (t : Config) (content : Bytes) : List Bytes :=
  if content = [] then [[]] else chunks t.blockSize.toNat content

theorem blockSize_pos (t : Config) : 0 < t.blockSize.toNat := by
  rw [Config.blockSize]
  split
  · decide
  · omega

theorem flatten_blocksOf (t : Config) (content : Bytes) : (t.blocksOf content).flatten = content := by
  rw [Config.blocksOf]
  split
  · next h => rw [h]; rfl
  · exact flatten_chunks (blockSize_pos t) content

section Encode
variable {t : Config} {rs : ReedSolomon} {id : TransferID} {data : Bytes} {final : Bool} {sealer : Option Sealer}
  {frags : List Fragment} {draw : Nat} {index : UInt32} {s : Sealer} {sub : Int}

theorem encodeBlock_spec (hrs : rs.Lawful) (hopen : Undoes (some s) sealer)
    (h : t.encodeBlock rs draw id index data final sealer = .ok frags)
    (hpieces : ∀ frag ∈ frags, (fragmentPieces frag sub).length < 4294967296) :
    ∃ b : CodedBlock rs t.dataShards.toNat t.parityShards.toNat s id sub,
      b.index = index ∧ b.data = data ∧ b.final = final ∧ b.frags = frags := by
  cases sealer with
  | none => cases hopen
  | some s' =>
    simp only [Config.encodeBlock, bind_eq_ok, pure_eq_ok, newRSFragmenter] at h
    obtain ⟨f, hf, ⟨frags', origLen⟩, hfrag, rfl⟩ := h
    split at hf
    next hpos =>
      cases hf
      obtain ⟨-, shards, hshards, hfrags⟩ := RSFragmenter.fragment_spec hopen hfrag
      have hlen := hrs.length hshards
      have hnew := hrs.few (ReedSolomon.new_of_shards hshards)
      refine ⟨⟨index, data, final, shards, _, by omega, hshards, ⟨by simpa using hfrags.length, fun i frag hi => ?_⟩,
        fun frag hmem => ?_, ?_, hpieces⟩, rfl, rfl, rfl, rfl⟩
      · simp only [getElem?_map, Option.map_eq_some_iff] at hi
        obtain ⟨frag', hi', rfl⟩ := hi
        exact ⟨(hfrags.place i frag' hi').index, (hfrags.place i frag' hi').total, (hfrags.place i frag' hi').opens⟩
      · obtain ⟨frag', -, rfl⟩ := mem_map.mp hmem
        exact ⟨rfl, rfl, rfl⟩
      · rw [length_map, hfrags.length, hlen]
        omega
    · cases hf

end Encode

structure StreamOf {rs : ReedSolomon} {d p : Nat} {s : Sealer} {id : TransferID} {sub : Int} (blocks : List Bytes)
    (start : UInt32) (frags : List Fragment) (err : Option String) (stream : List (CodedBlock rs d p s id sub)) :
      Prop where
  frags : frags = stream.flatMap (·.frags)
  length_le : stream.length ≤ blocks.length
  complete : err = none → stream.length = blocks.length
  block : ∀ i b, stream[i]? = some b →
    b.index = start + UInt32.ofNat i ∧ blocks[i]? = some b.data ∧ b.final = decide (i + 1 = blocks.length)

variable {rs : ReedSolomon} {s : Sealer} {id : TransferID} {sub : Int} {start : UInt32} {frags : List Fragment}
  {err : Option String}

theorem streamLoop_spec {d p : Nat} {emit : Nat → UInt32 → Bytes → Bool → Except String (List Fragment)}
    (hemit : ∀ {draw i data final frags}, emit draw i data final = .ok frags →
      (∀ frag ∈ frags, (fragmentPieces frag sub).length < 4294967296) → ∃ b : CodedBlock rs d p s id sub, b.index = i ∧
      b.data = data ∧ b.final = final ∧ b.frags = frags)
    {draw : Nat} {prev : Bytes × Bool} {rest : List (Bytes × Bool)}
    (hshort : ∀ i r, i < rest.length → (prev :: rest)[i]? = some r → r.2 = false)
    (h : streamLoop emit draw start prev rest = (frags, err))
    (hpieces : ∀ frag ∈ frags, (fragmentPieces frag sub).length < 4294967296) :
    ∃ stream : List (CodedBlock rs d p s id sub), StreamOf ((prev :: rest).map (·.1)) start frags err stream := by
  induction rest generalizing draw start prev frags err with
  | nil =>
    rw [streamLoop] at h
    split at h
    · cases h
      exact ⟨[], rfl, by simp, by simp, by simp⟩
    next hok =>
      cases h
      obtain ⟨b, hindex, hdata, hfinal, hfrags⟩ := hemit hok hpieces
      refine ⟨[b], by simp [hfrags], by simp, by simp, fun i b' hi => ?_⟩
      obtain ⟨rfl, rfl⟩ : i = 0 ∧ b = b' := by
        cases i with
        | zero => exact ⟨rfl, Option.some.inj hi⟩
        | succ i => simp at hi
      simp [hindex, hdata, hfinal]
  | cons next rest ih =>
    have hprev : prev.2 = false := hshort 0 prev (by simp) rfl
    rw [streamLoop, hprev] at h
    split at h
    · cases h
      exact ⟨[], rfl, by simp, by simp, by simp⟩
    next frags' hok =>
      rw [if_neg Bool.false_ne_true] at h
      cases h
      obtain ⟨b, hindex, hdata, hfinal, hfrags⟩ := hemit hok fun frag hmem => hpieces frag (mem_append_left _ hmem)
      obtain ⟨stream, hstream⟩ := ih (fun i r hi hr => hshort (i + 1) r (by simpa using hi) (by simpa using hr)) rfl
        fun frag hmem => hpieces frag (mem_append_right _ hmem)
      refine ⟨b :: stream, ?_, ?_, ?_, fun i b' hi => ?_⟩
      · rw [flatMap_cons, hfrags, ← hstream.frags]
      · simpa using hstream.length_le
      · simpa using hstream.complete
      · cases i with
        | zero =>
          obtain rfl : b = b' := Option.some.inj hi
          simp [hindex, hdata, hfinal]
        | succ i =>
          obtain ⟨hindex', hdata', hfinal'⟩ := hstream.block i b' hi
          refine ⟨?_, hdata', ?_⟩
          · rw [hindex', UInt32.ofNat_add, UInt32.add_assoc]
            congr 1
            exact UInt32.add_comm _ _
          · simpa using hfinal'

theorem streamBlocks_spec {t : Config} (hrs : rs.Lawful) {sealer : Option Sealer} (hopen : Undoes (some s) sealer)
    {content : Bytes} (h : t.streamBlocks rs content id sealer start = (frags, err))
    (hpieces : ∀ frag ∈ frags, (fragmentPieces frag sub).length < 4294967296) :
    ∃ stream : List (CodedBlock rs t.dataShards.toNat t.parityShards.toNat s id sub),
      StreamOf (t.blocksOf content) start frags err stream := by
  have hreads : (readBlocks t.blockSize.toNat content).map (·.1) = chunks t.blockSize.toNat content := by
    simp [readBlocks, Function.comp_def]
  rw [Config.streamBlocks] at h
  split at h
  next hempty =>
    have hcontent : content = [] := by
      rw [hempty] at hreads
      rw [← flatten_chunks (blockSize_pos t) content, ← hreads]
      rfl
    obtain ⟨stream, hstream⟩ := streamLoop_spec (encodeBlock_spec hrs hopen) (by simp) h hpieces
    exact ⟨stream, by simpa [Config.blocksOf, hcontent] using hstream⟩
  next prev rest hcons =>
    have hcontent : content ≠ [] := by
      rintro rfl
      simp [readBlocks, chunks_nil] at hcons
    have hshort : ∀ i r, i < rest.length → (prev :: rest)[i]? = some r → r.2 = false := by
      intro i r hi hr
      rw [← hcons, readBlocks, getElem?_map, Option.map_eq_some_iff] at hr
      obtain ⟨block, hblock, rfl⟩ := hr
      have hcount : i + 1 < chunkCount t.blockSize.toNat content.length := by
        rw [← length_chunks, ← hreads, hcons]
        simpa using hi
      simp [length_of_getElem?_chunks (blockSize_pos t) hcount hblock]
    obtain ⟨stream, hstream⟩ := streamLoop_spec (encodeBlock_spec hrs hopen) hshort h hpieces
    rw [← hcons, hreads] at hstream
    exact ⟨stream, by rwa [Config.blocksOf, if_neg hcontent]⟩

theorem streamBlocks_none (t : Config) (rs : ReedSolomon) (content : Bytes) (id : TransferID) (start : UInt32) :
    t.streamBlocks rs content id none start = ([], some errNilSealer) := by
  rw [Config.streamBlocks]
  split
  · rfl
  next prev rest _ =>
    cases rest with
    | nil | cons next rest => rfl

end SyncSwarm.Transfer
