import SyncSwarm.Theorems.Ingest.Intact
import SyncSwarm.Theorems.Transfer.Sink

/-! Streams and the nodes that carry them. Which block a shard is of, how long it is and whether it is the last are
    labels of the packet. -/

namespace SyncSwarm.Transfer
open Lib Protocol Fragment List Option GoMap

variable {t rx : Config} {rs : ReedSolomon} {s : Sealer} {id : TransferID} {sub : Int} {content : Bytes}
  {frags : List Fragment}
  {err : Option String} {init : Packet} {pkts : List Packet} {i : UInt32} {x : StreamBlock} {sa : StreamAssembler}
  {blocks : List Bytes} {stream : List (CodedBlock rs t.dataShards.toNat t.parityShards.toNat s id sub)}

/-- The labels of the packets are right: the length of the block, whether it is the last, and the block of every shard
    of the stream that they give. Nothing is asked of other shards. --/
structure Labelled (blocks : List Bytes) (frags : List Fragment) (pkts : List Packet) : Prop where
  blockLen : ∀ pkt ∈ pkts, blocks[pkt.blockIndex.toNat]?.map (·.length) = some pkt.blockLen.toNat
  final : ∀ pkt ∈ pkts, pkt.final = decide (pkt.blockIndex.toNat + 1 = blocks.length)
  own : ∀ {i x}, Gathered pkts i x → ∀ frag ∈ frags, x.chunks.get? frag.index = some frag.payload →
    ∃ frag' ∈ frags, frag'.blockIndex = i ∧ frag'.index = frag.index ∧ frag'.payload = frag.payload

theorem Gathered.labels (h : Gathered pkts i x) :
    ∃ pkt ∈ pkts, pkt.blockIndex = i ∧ x.blockLen = pkt.blockLen.toNat ∧ x.final = pkt.final := by
  induction h with
  | fresh hmem hindex => exact ⟨_, hmem, hindex, rfl, rfl⟩
  | record _ _ _ ih => exact ih

theorem Gathered.whole (h : Gathered pkts i x) (hwhole : ∀ pkt ∈ pkts, pkt.subTotal ≤ 1) {j : UInt32} {sealed : Bytes}
    (hget : x.chunks.get? j = some sealed) :
    ∃ pkt ∈ pkts, pkt.blockIndex = i ∧ pkt.chunkNumber = j ∧ pkt.payload = sealed := by
  induction h with
  | fresh => exact nomatch (get?_empty j).symm.trans hget
  | @record pkt x _ hmem hindex ih =>
    dsimp only at hget
    simp only [Buffers.record, Buffers.absorbSubChunk, if_pos (hwhole pkt hmem)] at hget
    split at hget
    next payload heq =>
      split at heq
      · cases heq
      · obtain rfl : pkt.payload = payload := Option.some.inj heq
        simp only [Buffers.put, get?_set] at hget
        split at hget
        next hj => exact ⟨pkt, hmem, hindex, hj.symm, Option.some.inj hget⟩
        · exact ih hget
    next => exact ih hget

theorem Labelled.of_whole (hwhole : ∀ pkt ∈ pkts, pkt.subTotal ≤ 1)
    (hlen : ∀ pkt ∈ pkts, blocks[pkt.blockIndex.toNat]?.map (·.length) = some pkt.blockLen.toNat)
    (hfinal : ∀ pkt ∈ pkts, pkt.final = decide (pkt.blockIndex.toNat + 1 = blocks.length))
    (hown : ∀ pkt ∈ pkts, ∀ frag ∈ frags, pkt.chunkNumber = frag.index → pkt.payload = frag.payload →
      ∃ frag' ∈ frags, frag'.blockIndex = pkt.blockIndex ∧ frag'.index = frag.index ∧ frag'.payload = frag.payload) :
    Labelled blocks frags pkts := by
  refine ⟨hlen, hfinal, fun hx frag hfrag hget => ?_⟩
  obtain ⟨pkt, hpkt, rfl, hnumber, hpayload⟩ := hx.whole hwhole hget
  exact hown pkt hpkt frag hfrag hnumber hpayload

theorem Labelled.opens (h : Labelled blocks frags pkts) (hbinds : s.Binds id frags) (hx : Gathered pkts i x)
    {j total : UInt32} {sealed plain : Bytes} (hget : x.chunks.get? j = some sealed)
    (hopen : s.openBytes sealed (aad id j total) = .ok plain) :
    ∃ frag ∈ frags, frag.blockIndex = i ∧ frag.index = j ∧ frag.payload = sealed := by
  obtain ⟨frag, hfrag, rfl, haad⟩ := hbinds _ _ _ _ hopen
  obtain ⟨-, rfl, -⟩ := aad_inj haad
  exact h.own hx frag hfrag hget

theorem CodedBlock.reconstruct_own (hrs : rs.Lawful) {d p : Nat} (b : CodedBlock rs d p s id sub)
    {held : GoMap UInt32 Bytes}
    (hown : ∀ j sealed plain, held.get? j = some sealed → s.openBytes sealed (aad id j (UInt32.ofNat (d + p))) =
      .ok plain → ∃ frag ∈ b.frags, frag.index = j ∧ frag.payload = sealed)
    {data : Bytes}
    (h : ({ newRSReassembler (some s) d p b.data.length with parts := held } : RSReassembler).reconstruct rs
      id = .ok data) :
    data = b.data := by
  have hlen := hrs.length b.coded
  have hfew : b.shards.length < 4294967296 := b.fragments.length ▸ b.few
  obtain ⟨-, hvalid, -⟩ := (RSReassembler.reconstruct_ok_iff rfl).mp h
  have hright :=
    RSReassembler.reconstruct_of_plain hrs rfl b.coded (UInt32.toNat_ofNat_of_lt' (hlen ▸ hfew) |>.trans hlen.symm)
    (fun j hj => ?_) hvalid rfl (length_append ▸ Nat.le_add_right _ _)
  · rw [padTo, take_left] at hright
    exact Except.ok.inj (h.symm.trans hright)
  cases hplain : RSReassembler.plain? _ s id j with
  | none => exact .inl rfl
  | some plain =>
    obtain ⟨sealed, hget, hopen⟩ := RSReassembler.plain?_eq_some.mp hplain
    obtain ⟨frag, hfrag, hindex, rfl⟩ := hown _ sealed plain hget hopen
    obtain ⟨k, hk⟩ := mem_iff_getElem?.mp hfrag
    obtain ⟨hindex', -, part, hpart, hopens⟩ := b.fragments.place k frag hk
    have hkj : k = j := ofNat_inj (Nat.lt_trans (lt_of_getElem? hk) b.few) (Nat.lt_trans hj hfew)
      (hindex'.symm.trans hindex)
    subst hkj
    rw [hlen] at hopens
    exact .inr (hpart.trans (congrArg some (Except.ok.inj (hopens.symm.trans hopen)))).symm

section Rebuilt
variable (hrs : rs.Lawful) (hstream : StreamOf (t.blocksOf content) 0 frags err stream)
  (hfew : (t.blocksOf content).length ≤ 4294967296)
include hstream hfew

theorem StreamOf.owner {frag : Fragment} (hfrag : frag ∈ frags) :
    ∃ b, stream[frag.blockIndex.toNat]? = some b ∧ frags.filter (·.blockIndex = frag.blockIndex) = b.frags := by
  have hord := hstream.ordered hfew
  rw [hstream.frags, mem_flatMap] at hfrag
  obtain ⟨b, hb, hmem⟩ := hfrag
  obtain ⟨k, hk⟩ := mem_iff_getElem?.mp hb
  have hindex : frag.blockIndex = UInt32.ofNat k := (b.tagged frag hmem).1.trans (hord.index k b hk)
  rw [hindex, UInt32.toNat_ofNat_of_lt' (ofNat_lt hord hk)]
  exact ⟨b, hk, filter_blockIndex hstream hfew hk⟩

include hrs

theorem Labelled.rebuilt (h : Labelled (t.blocksOf content) frags pkts) (hbinds : s.Binds id frags)
    (hpos : 0 < t.dataShards.toNat)
    (hsa : (newStreamAssembler init).For rx t.dataShards.toNat t.parityShards.toNat s id) {data : Bytes}
    {final : Bool} (hre : Rebuilt rx rs init pkts i data final) :
    (t.blocksOf content)[i.toNat]? = some data ∧ final = decide (i.toNat + 1 = (t.blocksOf content).length) := by
  obtain ⟨x, hx, rfl, hok⟩ := hre
  obtain ⟨pkt, hpkt, hi, hlen, hfinal⟩ := hx.labels
  refine ⟨?_, by rw [hfinal, h.final pkt hpkt, hi]⟩
  rw [StreamAssembler.reconstructBlock, hsa.opener, hsa.dataShards, hsa.parityShards, hsa.id] at hok
  obtain ⟨held, hadd, hheld⟩ :=
    addShards_spec (r := newRSReassembler (some s) t.dataShards.toNat t.parityShards.toNat x.blockLen)
    id x.total x.chunks rfl
  rw [hadd] at hok
  obtain ⟨-, hvalid, -⟩ := (RSReassembler.reconstruct_ok_iff rfl).mp hok
  -- A shard that opens was sealed for its place and for the block.
  have hown : ∀ {j total sealed plain}, held.get? j = some sealed → s.openBytes sealed (aad id j total) = .ok plain →
      ∃ frag ∈ frags, frag.blockIndex = i ∧ frag.index = j ∧ frag.payload = sealed := by
    intro j total sealed plain hget hopen
    rw [hheld] at hget
    split at hget
    · exact h.opens hbinds hx hget hopen
    · cases hget
  obtain ⟨j, plain, hj⟩ := RSReassembler.exists_plain (Nat.lt_of_lt_of_le hpos hvalid)
  obtain ⟨sealed, hget, hopen⟩ := RSReassembler.plain?_eq_some.mp hj
  obtain ⟨frag, hfrag, rfl, -⟩ := hown hget hopen
  obtain ⟨b, hb, hfilter⟩ := hstream.owner hfew hfrag
  have hblock := (hstream.block _ b hb).2.1
  have hblockLen := h.blockLen pkt hpkt
  rw [hi, hblock, map_some, Option.some.injEq, ← hlen] at hblockLen
  rw [← hblockLen] at hok
  rw [hblock, b.reconstruct_own hrs (fun _ _ _ hget hopen => ?_) hok]
  obtain ⟨frag', hfrag', hindex, hplace⟩ := hown hget hopen
  exact ⟨frag', hfilter ▸ mem_filter.mpr ⟨hfrag', decide_eq_true hindex⟩, hplace⟩

end Rebuilt

theorem Flushed.write {t : Config} {n : Nat} {data : Bytes} (h : Flushed t rs init pkts sa)
    (hn : sa.events[n]? = some (.write data)) :
    (∃ final, Rebuilt t rs init pkts (UInt32.ofNat n) data final) ∧
      ∀ k < n, ∃ data, Rebuilt t rs init pkts (UInt32.ofNat k) data false := by
  cases h with
  | @writing datas hw =>
    rw [hw.events, getElem?_map, map_eq_some_iff] at hn
    obtain ⟨_, hn, ⟨⟩⟩ := hn
    have hlt := lt_of_getElem? hn
    exact ⟨⟨_, hw.written n _ hn⟩, fun k hk => ⟨_, hw.written k _ (getElem?_eq_getElem (Nat.lt_trans hk hlt))⟩⟩
  | written hw =>
    obtain ⟨datas, handed, ack, hcontent, hevents, -⟩ := hw.events
    rw [hevents] at hn
    rcases getElem?_append_single hn with hn | ⟨-, hn⟩
    · rw [getElem?_map, map_eq_some_iff] at hn
      obtain ⟨_, hn, ⟨⟩⟩ := hn
      have hlt := lt_of_getElem? hn
      refine ⟨⟨_, hcontent.block n _ hn⟩, fun k hk => ⟨datas[k], ?_⟩⟩
      have hk := hcontent.block k _ (getElem?_eq_getElem (by omega))
      rwa [decide_eq_false (by omega)] at hk
    · cases hn

/-- While the labels are right, a shard of the stream opens only in its place in its own block, and the assembler
    writes the blocks of the content in order. --/
theorem labelled_written (hrs : rs.Lawful) {sealer : Option Sealer}
    (hsend : t.streamBlocks rs content id sealer 0 = (frags, err)) (hopen : Undoes (some s) sealer)
    (hbinds : s.Binds id frags) (hsent : frags ≠ []) (hfew : (t.blocksOf content).length ≤ 4294967296)
    (hsa : (newStreamAssembler init).For rx t.dataShards.toNat t.parityShards.toNat s id)
    (hlabels : Labelled (t.blocksOf content) frags pkts) (hadd : (newStreamAssembler init).addAll rx rs pkts = .ok sa) :
    (∀ i x, Gathered pkts i x → ∀ j total sealed plain, x.chunks.get? j = some sealed →
      s.openBytes sealed (aad id j total) = .ok plain → ∃ frag ∈ frags, frag.blockIndex = i ∧ frag.index = j ∧
        frag.payload = sealed) ∧
    ∀ (n : Nat) data, sa.events[n]? = some (.write data) → (t.blocksOf content)[n]? = some data := by
  refine ⟨fun i x hx j total sealed plain => hlabels.opens hbinds hx, fun n data hn => ?_⟩
  obtain ⟨stream, hstream⟩ := streamBlocks_spec hrs hopen hsend Sample.pieces_zero
  obtain ⟨frag, hfrag⟩ := exists_mem_of_ne_nil frags hsent
  obtain ⟨b, -⟩ := hstream.owner hfew hfrag
  have hblock {i data final} (h : Rebuilt rx rs init pkts i data final) :=
    hlabels.rebuilt hrs hstream hfew hbinds b.dataShards_pos hsa h
  obtain ⟨⟨final, hdata⟩, hearlier⟩ := ((Flushed.writing (writing_new rx rs init)).addAll hadd).write hn
  -- The last block ends the stream, so that no later one is written.
  have hlt : n < (t.blocksOf content).length := by
    by_contra hge
    have hpos := length_pos_iff.mpr (blocksOf_ne_nil t content)
    obtain ⟨last, hlast⟩ := hearlier ((t.blocksOf content).length - 1) (by omega)
    have hfinal := (hblock hlast).2
    rw [UInt32.toNat_ofNat_of_lt' (by simp only [UInt32.size]; omega)] at hfinal
    exact of_decide_eq_false hfinal.symm (by omega)
  have hwritten := (hblock hdata).1
  rwa [UInt32.toNat_ofNat_of_lt' (Nat.lt_of_lt_of_le hlt hfew)] at hwritten

namespace Sample

def twoFrags : List Fragment := ((streamer 1).streamBlocks copies [5, 6] transferID (some labelSealer) 0).1

def streamSealer : Sealer where
  sealBytes _ plain a :=
    if ∃ frag ∈ twoFrags, frag.payload = a ++ plain ∧ aad transferID frag.index frag.total = a then .ok (a ++ plain)
    else .error "cipher: no randomness"
  openBytes sealed a :=
    if ∃ frag ∈ twoFrags, frag.payload = sealed ∧ aad transferID frag.index frag.total = a then .ok
      (sealed.drop a.length)
    else .error "cipher: message authentication failed"

theorem undoes_streamSealer : Undoes (some streamSealer) (some streamSealer) := by
  intro draw plain a sealed h
  simp only [streamSealer] at h ⊢
  split at h
  next hsent =>
    cases h
    rw [if_pos hsent, drop_left]
  · cases h

theorem binds_streamSealer : streamSealer.Binds transferID twoFrags := by
  intro sealed i total plain h
  simp only [streamSealer] at h
  split at h
  next hsent => exact hsent
  · cases h

def carrier : Config := { streamer 1 with sealer := some streamSealer }

theorem sends_twoFrags : carrier.streamBlocks copies [5, 6] transferID (some streamSealer) 0 = (twoFrags, none) := by
  decide +kernel

def twoPackets : List Packet := packetsOf transferID streamScheme "sender" [] 0 twoFrags

def mixed : List Packet :=
  { id := transferID, chunkNumber := 0, totalChunks := 2, blockLen := 1, payload := [5] } :: twoPackets.reverse

def relabelled : List Packet := (twoPackets.filter (·.blockIndex = 1)).map ({ · with blockIndex := 0, final := false })

end Sample

open Sample in
theorem labelled_written_mixed : ∃ sa, (newStreamAssembler streamInit).addAll carrier copies mixed = .ok sa ∧
    (carrier.blocksOf [5, 6])[1]? = some [6] := by
  obtain ⟨sa, hsa, hevents⟩ := map_eq_some_iff.mp
    (show ((newStreamAssembler streamInit).addAll carrier copies mixed).toOption.map (·.events[1]?) =
      some (some (.write [6])) by decide +kernel)
  refine ⟨sa, toOption_eq_some.mp hsa,
    (labelled_written copies_lawful sends_twoFrags undoes_streamSealer binds_streamSealer (by decide)
    (by decide) (show (newStreamAssembler streamInit).For carrier 1 1 streamSealer transferID from ⟨rfl, rfl, rfl, rfl⟩)
    (show Labelled (carrier.blocksOf [5, 6]) twoFrags mixed from .of_whole (by decide) (by decide)
      (by decide) (by decide))
    (toOption_eq_some.mp hsa)).2 1 [6] hevents⟩

open Sample in
/-- The second block is written as the first: the seal of its shards does not name the block. --/
theorem relabelled_written : streamSealer.Binds transferID twoFrags ∧
    carrier.streamBlocks copies [5, 6] transferID (some streamSealer) 0 = (twoFrags, none) ∧
    ∃ sa, (newStreamAssembler streamInit).addAll carrier copies relabelled = .ok sa ∧ sa.events = [.write [6]] ∧
      carrier.blocksOf [5, 6] = [[5], [6]] := by
  obtain ⟨sa, hsa, hevents⟩ := map_eq_some_iff.mp
    (show ((newStreamAssembler streamInit).addAll carrier copies relabelled).toOption.map (·.events) =
      some [.write [6]] by decide +kernel)
  exact ⟨binds_streamSealer, sends_twoFrags, sa, toOption_eq_some.mp hsa, hevents, by decide⟩

end SyncSwarm.Transfer
