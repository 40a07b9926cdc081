import SyncSwarm.Theorems.Transfer.StreamBlocks

/-! The stream assembler: blocks are written in order as soon as they are reconstructed, however the packets arrive. -/

namespace SyncSwarm.Transfer
open Lib Protocol Fragment List Option GoMap

namespace CodedBlock
variable {rs : ReedSolomon} {d p : Nat} {s : Sealer} {id : TransferID} {sub : Int} {b : CodedBlock rs d p s id sub}
  {hist : List Packet} {pkt : Packet}

def plan (b : CodedBlock rs d p s id sub) : Plan := planOf b.frags sub b.few b.pieces

def out (b : CodedBlock rs d p s id sub) : Bytes := b.data.take (UInt32.ofNat b.data.length).toNat

structure Owns (b : CodedBlock rs d p s id sub) (pkt : Packet) : Prop where
  fits : b.plan.Fits pkt
  blockIndex : pkt.blockIndex = b.index
  totalChunks : pkt.totalChunks = UInt32.ofNat b.shards.length
  blockLen : pkt.blockLen = UInt32.ofNat b.data.length
  final : pkt.final = b.final

theorem owns_of_mem {sc : Scheme} {sourceNode : String} {replyBlock : Bytes}
    (h : pkt ∈ packetsOf id sc sourceNode replyBlock sub b.frags) : b.Owns pkt := by
  have hfits : b.plan.Fits pkt := fits_of_mem (fun i frag hi => (b.fragments.place i frag hi).index) h
  obtain ⟨i, frag, k, part, hfrag, hpart, rfl⟩ := mem_packetsOf.mp h
  obtain ⟨hindex, hlen, hfinal⟩ := b.tagged frag (mem_of_getElem? hfrag)
  exact ⟨hfits, hindex, (b.fragments.place i frag hfrag).total, hlen, hfinal⟩

structure Filling (b : CodedBlock rs d p s id sub) (hist : List Packet) (x : StreamBlock) : Prop where
  ready : x.ready = false
  total : x.total = UInt32.ofNat b.shards.length
  blockLen : x.blockLen = (UInt32.ofNat b.data.length).toNat
  final : x.final = b.final
  held : b.plan.Held hist x.toBuffers

inductive InState (b : CodedBlock rs d p s id sub) (hist : List Packet) : Option StreamBlock → Prop where
  | fresh : hist = [] → InState b hist none
  | filling {x : StreamBlock} : b.Filling hist x → (b.plan.done hist).length < d → InState b hist (some x)
  | ready {x : StreamBlock} : x.ready = true → x.data = b.out → x.final = b.final → InState b hist (some x)

theorem Owns.filling (h : b.Owns pkt) : b.Filling [] (newStreamBlock pkt) where
  ready := rfl
  total := h.totalChunks
  blockLen := by rw [newStreamBlock, h.blockLen]
  final := h.final
  held := b.plan.held_empty

theorem InState.filling_of_not_ready {x : Option StreamBlock} (h : b.InState hist x) (hpkt : b.Owns pkt)
    (hready : (x.getD (newStreamBlock pkt)).ready = false) : b.Filling hist (x.getD (newStreamBlock pkt)) := by
  cases h with
  | fresh hnil => exact hnil ▸ hpkt.filling
  | filling hfill _ => exact hfill
  | ready hr _ _ => exact absurd (hr.symm.trans hready) (by decide)

theorem Filling.record {x : StreamBlock} (h : b.Filling hist x) (hpkt : b.Owns pkt) :
    b.Filling (pkt :: hist) { x with toBuffers := x.toBuffers.record pkt } :=
  { h with held := h.held.record hpkt.fits }

theorem length_out_le : (UInt32.ofNat b.data.length).toNat ≤ (padTo d b.data).length := by
  have hle : (UInt32.ofNat b.data.length).toNat ≤ b.data.length := by
    rw [UInt32.toNat_ofNat']
    exact Nat.mod_le _ _
  rw [padTo, length_append]
  omega

theorem take_padTo : (padTo d b.data).take (UInt32.ofNat b.data.length).toNat = b.out := by
  have hle : (UInt32.ofNat b.data.length).toNat ≤ b.data.length := by
    rw [UInt32.toNat_ofNat']
    exact Nat.mod_le _ _
  rw [padTo, take_append_of_le_length hle, out]

theorem length_done_lt (b : CodedBlock rs d p s id sub) (hist : List Packet) : (b.plan.done hist).length < 4294967296 :=
  Nat.lt_of_le_of_lt (Nat.le_trans (b.plan.length_done_le hist) (Nat.le_of_eq (length_planOf b.few b.pieces))) b.few

end CodedBlock

section Assembler
variable {rs : ReedSolomon} {d p : Nat} {s : Sealer} {id : TransferID} {sub : Int} {b : CodedBlock rs d p s id sub}
  {hist : List Packet} {pkt : Packet} {sa : StreamAssembler} {rx : Config}

/-- The assembler is one for the transfer, and opens what the sealer has sealed. --/
structure StreamAssembler.For (sa : StreamAssembler) (rx : Config) (d p : Nat) (s : Sealer) (id : TransferID) :
    Prop where
  id : sa.id = id
  dataShards : sa.dataShards = d
  parityShards : sa.parityShards = p
  opener : rx.recipientOpener { hybridSealed := sa.hybridSealed, pq := sa.pq } = some s

theorem reconstructBlock_ok (hrs : rs.Lawful) (hsa : sa.For rx d p s id) {x : StreamBlock} (hx : b.Filling hist x)
    (hd : d ≤ (b.plan.done hist).length) : sa.reconstructBlock rx rs x = .ok b.out := by
  rw [StreamAssembler.reconstructBlock, hsa.opener, hsa.dataShards, hsa.parityShards, hsa.id, hx.total, hx.blockLen,
    reconstruct_of_held hrs hx.held b.coded b.fragments hd b.length_out_le, b.take_padTo]

theorem absorb_inState (hrs : rs.Lawful) (hsa : sa.For rx d p s id) {x : StreamBlock} (hx : b.Filling hist x)
    (hpkt : b.Owns pkt) : ∃ x', sa.absorb rx rs x pkt = .ok x' ∧ b.InState (pkt :: hist) (some x') := by
  have hrec := hx.record hpkt
  have hsmall : d < 4294967296 := by
    have hnew := hrs.few (ReedSolomon.new_of_shards b.coded)
    omega
  have hcount : UInt32.ofNat sa.dataShards ≤ UInt32.ofNat (x.toBuffers.record pkt).received.len ↔
      d ≤ (b.plan.done (pkt :: hist)).length := by
    rw [hsa.dataShards, hrec.held.received_len, UInt32.ofNat_le_iff_le hsmall (b.length_done_lt _)]
  simp only [StreamAssembler.absorb, hcount]
  split
  next hd =>
    rw [reconstructBlock_ok hrs hsa hrec hd]
    exact ⟨_, rfl, .ready rfl rfl hrec.final⟩
  · next hd => exact ⟨_, rfl, .filling hrec (Nat.not_le.mp hd)⟩

variable {stream : List (CodedBlock rs d p s id sub)} {n : Nat} {pkts : List Packet}

structure Ordered (stream : List (CodedBlock rs d p s id sub)) (n : Nat) : Prop where
  few : n ≤ 4294967296
  length_le : stream.length ≤ n
  index : ∀ i b, stream[i]? = some b → b.index = UInt32.ofNat i
  final : ∀ i b, stream[i]? = some b → b.final = decide (i + 1 = n)

def ofBlock (i : Nat) (pkts : List Packet) : List Packet := pkts.filter (·.blockIndex = UInt32.ofNat i)

/-- The assembler has written the blocks before `nextFlush`; of the others it has what their packets give. A block
    that was written may have come up again. --/
structure Flushing (rx : Config) (stream : List (CodedBlock rs d p s id sub)) (n : Nat) (pkts : List Packet)
    (sa : StreamAssembler) : Prop where
  same : sa.For rx d p s id
  going : sa.done = false
  next_le : sa.nextFlush.toNat ≤ stream.length
  next_lt : sa.nextFlush.toNat < n
  events : sa.events = (stream.take sa.nextFlush.toNat).map fun b => .write b.out
  blocks : ∀ i b, stream[i]? = some b → ∃ hist, b.InState hist (sa.blocks.get? (UInt32.ofNat i)) ∧
    (sa.nextFlush.toNat ≤ i → hist = ofBlock i pkts)
  outside : ∀ i : UInt32, stream.length ≤ i.toNat → sa.blocks.get? i = none

/-- All blocks were written in order, and the end. --/
structure Finished (rx : Config) (stream : List (CodedBlock rs d p s id sub)) (n : Nat) (sa : StreamAssembler) :
    Prop where
  done : sa.done = true
  length : stream.length = n
  next : sa.nextFlush = UInt32.ofNat n
  events : ∃ ack, sa.events = (stream.map fun b => .write b.out) ++
    [.finish (if rx.hasSink ∨ !rx.hasOnData then none else some (stream.map (·.out)).flatten) ack]

inductive Assembling (rx : Config) (stream : List (CodedBlock rs d p s id sub)) (n : Nat) (pkts : List Packet)
    (sa : StreamAssembler) : Prop where
  | going : Flushing rx stream n pkts sa → (∀ x, sa.blocks.get? sa.nextFlush = some x → x.ready = false) →
    Assembling rx stream n pkts sa
  | finished : Finished rx stream n sa → Assembling rx stream n pkts sa

theorem ofNat_lt (hord : Ordered stream n) {i : Nat} (hi : stream[i]? = some b) : i < 4294967296 :=
  Nat.lt_of_lt_of_le (lt_of_getElem? hi) (Nat.le_trans hord.length_le hord.few)

theorem Flushing.ready_block (h : Flushing rx stream n pkts sa) {x : StreamBlock}
    (hx : sa.blocks.get? sa.nextFlush = some x) (hready : x.ready = true) :
    ∃ b, stream[sa.nextFlush.toNat]? = some b ∧ x.data = b.out ∧ x.final = b.final := by
  have hlt : sa.nextFlush.toNat < stream.length := by
    by_contra hge
    rw [h.outside _ (Nat.not_lt.mp hge)] at hx
    cases hx
  obtain ⟨hist, hstate, -⟩ := h.blocks _ _ (getElem?_eq_getElem hlt)
  rw [UInt32.ofNat_toNat, hx] at hstate
  refine ⟨_, getElem?_eq_getElem hlt, ?_⟩
  cases hstate with
  | filling hfill _ => exact absurd (hready.symm.trans hfill.ready) (by decide)
  | ready _ hdata hfinal => exact ⟨hdata, hfinal⟩

theorem next_writeNext (sa : StreamAssembler) (x : StreamBlock) :
    (sa.writeNext x).nextFlush = UInt32.ofNat (sa.nextFlush.toNat + 1) := by
  rw [StreamAssembler.writeNext, UInt32.ofNat_add, UInt32.ofNat_toNat]
  rfl

section Write
variable {x : StreamBlock} (h : Flushing rx stream n pkts sa) (hord : Ordered stream n)
  (hb : stream[sa.nextFlush.toNat]? = some b) (hdata : x.data = b.out)
include h hb hdata

theorem Flushing.events_writeNext :
    (sa.writeNext x).events = (stream.take (sa.nextFlush.toNat + 1)).map fun b => .write b.out := by
  rw [StreamAssembler.writeNext, h.events, hdata, take_add_one, hb, map_append]
  rfl

include hord

theorem Flushing.writeNext (hfinal : b.final = false) : Flushing rx stream n pkts (sa.writeNext x) := by
  have hlt : sa.nextFlush.toNat < stream.length := lt_of_getElem? hb
  have hless : sa.nextFlush.toNat + 1 < n := by
    rw [hord.final _ b hb, decide_eq_false_iff_not] at hfinal
    exact Nat.lt_of_le_of_ne h.next_lt hfinal
  have hnext : (sa.writeNext x).nextFlush.toNat = sa.nextFlush.toNat + 1 := by
    rw [next_writeNext, UInt32.toNat_ofNat_of_lt' (Nat.lt_of_lt_of_le hless hord.few)]
  refine ⟨⟨h.same.id, h.same.dataShards, h.same.parityShards, h.same.opener⟩, h.going, by rw [hnext]; exact hlt,
    by rw [hnext]; exact hless, by rw [hnext]; exact h.events_writeNext hb hdata, fun i b' hi => ?_, fun i hi => ?_⟩
  · rw [hnext]
    obtain ⟨hist, hstate, hhist⟩ := h.blocks i b' hi
    by_cases hin : UInt32.ofNat i = sa.nextFlush
    · have hi' : i = sa.nextFlush.toNat := by rw [← hin, UInt32.toNat_ofNat_of_lt' (ofNat_lt hord hi)]
      refine ⟨[], ?_, fun hle => by omega⟩
      rw [hin, StreamAssembler.writeNext, get?_delete_self]
      exact .fresh rfl
    · refine ⟨hist, ?_, fun hle => hhist (by omega)⟩
      rw [StreamAssembler.writeNext, get?_delete_ne _ hin]
      exact hstate
  · by_cases hin : i = sa.nextFlush
    · rw [hin, StreamAssembler.writeNext, get?_delete_self]
    · rw [StreamAssembler.writeNext, get?_delete_ne _ hin]
      exact h.outside i hi

theorem Flushing.finish (hfinal : b.final = true) : Finished rx stream n ((sa.writeNext x).finish rx) := by
  have hlt : sa.nextFlush.toNat < stream.length := lt_of_getElem? hb
  have hlast : sa.nextFlush.toNat + 1 = n := by
    rw [hord.final _ b hb] at hfinal
    simpa using hfinal
  have hlen : stream.length = n := Nat.le_antisymm hord.length_le (by omega)
  have hevents : (sa.writeNext x).events = stream.map fun b => .write b.out := by
    rw [h.events_writeNext hb hdata, hlast, ← hlen, take_length]
  have hout : (sa.writeNext x).output = (stream.map (·.out)).flatten := by
    rw [StreamAssembler.output, hevents, List.map_map]
    rfl
  refine ⟨rfl, hlen, (next_writeNext sa x).trans (by rw [hlast]), ?_⟩
  rw [StreamAssembler.finish, hevents, hout]
  exact ⟨_, rfl⟩

end Write

theorem flushLoop_assembling (hord : Ordered stream n) {rounds : Nat} (h : Flushing rx stream n pkts sa)
    (hrounds : sa.blocks.len ≤ rounds) : Assembling rx stream n pkts (StreamAssembler.flushLoop rx rounds sa) := by
  induction rounds generalizing sa with
  | zero =>
    have hnone := get?_of_len_zero (Nat.le_zero.mp hrounds) sa.nextFlush
    exact .going h fun x hx => absurd (hnone.symm.trans hx) nofun
  | succ rounds ih =>
    rw [StreamAssembler.flushLoop]
    split
    · next hnone => exact .going h fun x hx => absurd (hnone.symm.trans hx) nofun
    next x hx =>
      split
      next hready =>
        obtain ⟨b, hb, hdata, hfinal⟩ := h.ready_block hx hready
        split
        · next hlast => exact .finished (h.finish hord hb hdata (hfinal ▸ hlast))
        next hlast =>
          refine ih (h.writeNext hord hb hdata (by simpa [← hfinal] using hlast)) ?_
          have hlen := len_delete_lt (isSome_iff_exists.mpr ⟨x, hx⟩)
          exact Nat.le_of_lt_succ (Nat.lt_of_lt_of_le hlen hrounds)
      next hready =>
        refine .going h fun y hy => ?_
        obtain rfl := mem_unique hx hy
        simpa using hready

/-! ### A packet, and all of them -/

theorem StreamAssembler.addAll_append (sa : StreamAssembler) (t : Config) (rs : ReedSolomon) (pkts more : List Packet) :
    sa.addAll t rs (pkts ++ more) = (sa.addAll t rs pkts).bind (·.addAll t rs more) :=
  foldlM_append

variable {i : Nat} {x : StreamBlock}

theorem ofBlock_own (h : pkt.blockIndex = UInt32.ofNat i) : ofBlock i (pkt :: pkts) = pkt :: ofBlock i pkts := by
  simp [ofBlock, h]

theorem ofBlock_other (h : pkt.blockIndex ≠ UInt32.ofNat i) : ofBlock i (pkt :: pkts) = ofBlock i pkts := by
  simp [ofBlock, h]

theorem Flushing.set (hord : Ordered stream n) (h : Flushing rx stream n pkts sa) {hist : List Packet}
    (hi : stream[i]? = some b) (hpkt : b.Owns pkt) (hx : b.InState (pkt :: hist) (some x))
    (hhist : sa.nextFlush.toNat ≤ i → hist = ofBlock i pkts) :
    Flushing rx stream n (pkt :: pkts) { sa with blocks := sa.blocks.set pkt.blockIndex x } := by
  have hindex : pkt.blockIndex = UInt32.ofNat i := hpkt.blockIndex.trans (hord.index i b hi)
  refine ⟨⟨h.same.id, h.same.dataShards, h.same.parityShards, h.same.opener⟩, h.going, h.next_le, h.next_lt, h.events,
    fun j b' hj => ?_, fun j hj => ?_⟩
  · by_cases hij : UInt32.ofNat j = pkt.blockIndex
    · obtain rfl : j = i := ofNat_inj (ofNat_lt hord hj) (ofNat_lt hord hi) (hij.trans hindex)
      obtain rfl := mem_unique hj hi
      refine ⟨pkt :: hist, ?_, fun hle => ?_⟩
      · rw [hij, get?_set_self]
        exact hx
      · rw [ofBlock_own hindex, hhist hle]
    · obtain ⟨hist', hstate, hhist'⟩ := h.blocks j b' hj
      refine ⟨hist', ?_, fun hle => ?_⟩
      · rw [get?_set_ne _ _ hij]
        exact hstate
      · rw [ofBlock_other (Ne.symm hij), hhist' hle]
  · have hne : j ≠ pkt.blockIndex := by
      rintro rfl
      rw [hindex, UInt32.toNat_ofNat_of_lt' (ofNat_lt hord hi)] at hj
      exact absurd (lt_of_getElem? hi) (Nat.not_lt.mpr hj)
    rw [get?_set_ne _ _ hne]
    exact h.outside j hj

theorem Flushing.skip (hord : Ordered stream n) (h : Flushing rx stream n pkts sa) (hi : stream[i]? = some b)
    (hpkt : b.Owns pkt) (hx : sa.blocks.get? (UInt32.ofNat i) = some x) (hready : x.ready = true) :
    Flushing rx stream n (pkt :: pkts) sa := by
  have hindex : pkt.blockIndex = UInt32.ofNat i := hpkt.blockIndex.trans (hord.index i b hi)
  refine { h with blocks := fun j b' hj => ?_ }
  obtain ⟨hist, hstate, hhist⟩ := h.blocks j b' hj
  by_cases hij : UInt32.ofNat j = pkt.blockIndex
  · obtain rfl : j = i := ofNat_inj (ofNat_lt hord hj) (ofNat_lt hord hi) (hij.trans hindex)
    rw [hx] at hstate ⊢
    cases hstate with
    | filling hfill _ => exact absurd (hready.symm.trans hfill.ready) (by decide)
    | ready hr hdata hfinal => exact ⟨_, .ready hr hdata hfinal, fun _ => rfl⟩
  · exact ⟨hist, hstate, fun hle => by rw [ofBlock_other (Ne.symm hij), hhist hle]⟩

theorem add_skip (hgoing : sa.done = false)
    (hready : ((sa.blocks.get? pkt.blockIndex).getD (newStreamBlock pkt)).ready = true) :
    sa.add rx rs pkt = .ok sa := by
  simp [StreamAssembler.add, hgoing, hready]

theorem add_take (hgoing : sa.done = false)
    (hready : ((sa.blocks.get? pkt.blockIndex).getD (newStreamBlock pkt)).ready = false)
    (hx : sa.absorb rx rs ((sa.blocks.get? pkt.blockIndex).getD (newStreamBlock pkt)) pkt = .ok x) :
    sa.add rx rs pkt = .ok ({ sa with blocks := sa.blocks.set pkt.blockIndex x }.flushReady rx) := by
  simp only [StreamAssembler.add, hgoing, hready, Bool.false_eq_true, if_false, hx]
  rfl

theorem add_assembling (hrs : rs.Lawful) (hord : Ordered stream n) (h : Assembling rx stream n pkts sa)
    (hi : stream[i]? = some b) (hpkt : b.Owns pkt) :
    ∃ sa', sa.add rx rs pkt = .ok sa' ∧ Assembling rx stream n (pkt :: pkts) sa' := by
  cases h with
  | finished hfin => exact ⟨sa, by rw [StreamAssembler.add, if_pos hfin.done], .finished hfin⟩
  | going hgo hnext =>
    have hindex : pkt.blockIndex = UInt32.ofNat i := hpkt.blockIndex.trans (hord.index i b hi)
    obtain ⟨hist, hstate, hhist⟩ := hgo.blocks i b hi
    rw [← hindex] at hstate
    cases hready : ((sa.blocks.get? pkt.blockIndex).getD (newStreamBlock pkt)).ready with
    | true =>
      refine ⟨sa, add_skip hgo.going hready, ?_⟩
      cases hx : sa.blocks.get? pkt.blockIndex with
      | none =>
        rw [hx] at hready
        cases hready
      | some x =>
        rw [hx] at hready
        exact .going (hgo.skip hord hi hpkt (hindex ▸ hx) hready) hnext
    | false =>
      obtain ⟨x, hx, hstate'⟩ := absorb_inState hrs hgo.same (hstate.filling_of_not_ready hpkt hready) hpkt
      exact ⟨_, add_take hgo.going hready hx, flushLoop_assembling hord (hgo.set hord hi hpkt hstate' hhist)
        (Nat.le_refl _)⟩

theorem addAll_assembling (hrs : rs.Lawful) (hord : Ordered stream n) {more : List Packet}
    (h : Assembling rx stream n pkts sa)
    (hpkts : ∀ pkt ∈ more, ∃ (i : Nat) (b : CodedBlock rs d p s id sub), stream[i]? = some b ∧ b.Owns pkt) :
    ∃ sa', sa.addAll rx rs more = .ok sa' ∧ Assembling rx stream n (more.reverse ++ pkts) sa' := by
  induction more generalizing sa pkts with
  | nil => exact ⟨sa, rfl, h⟩
  | cons pkt more ih =>
    obtain ⟨i, b, hi, hpkt⟩ := hpkts pkt mem_cons_self
    obtain ⟨sa', hadd, h'⟩ := add_assembling hrs hord h hi hpkt
    obtain ⟨sa'', hmore, h''⟩ := ih h' fun q hq => hpkts q (mem_cons_of_mem pkt hq)
    refine ⟨sa'', ?_, by rwa [reverse_cons, append_assoc]⟩
    rw [StreamAssembler.addAll, foldlM_cons, hadd]
    exact hmore

theorem Assembling.done_of_enough (hlen : stream.length = n) (h : Assembling rx stream n pkts sa)
    (henough : ∀ (i : Nat) (b : CodedBlock rs d p s id sub), stream[i]? = some b →
      d ≤ (b.plan.done (ofBlock i pkts)).length)
    (hd : 0 < d) : sa.done = true := by
  cases h with
  | finished hfin => exact hfin.done
  | going hgo hnext =>
    have hlt : sa.nextFlush.toNat < stream.length := hlen ▸ hgo.next_lt
    have hb := getElem?_eq_getElem hlt
    have hmany := henough _ _ hb
    obtain ⟨hist, hstate, hhist⟩ := hgo.blocks _ _ hb
    obtain rfl := hhist (Nat.le_refl _)
    rw [UInt32.ofNat_toNat] at hstate
    cases hx : sa.blocks.get? sa.nextFlush with
    | none =>
      rw [hx] at hstate
      cases hstate with
      | fresh hnil =>
        rw [hnil, Plan.done_nil, length_nil] at hmany
        omega
    | some x =>
      rw [hx] at hstate
      cases hstate with
      | filling _ hfew => omega
      | ready hready _ _ => exact absurd (hready.symm.trans (hnext x hx)) (by decide)

end Assembler

/-! ### The stream -/

section Stream
variable {t rx : Config} {rs : ReedSolomon} {s : Sealer} {content : Bytes} {id : TransferID} {sub : Int}
  {frags : List Fragment}
  {err : Option String} {sc : Scheme} {sourceNode : String} {replyBlock : Bytes} {init : Packet}
    {arrivals : List Packet}
  {stream : List (CodedBlock rs t.dataShards.toNat t.parityShards.toNat s id sub)}

theorem blocksOf_ne_nil (t : Config) (content : Bytes) : t.blocksOf content ≠ [] := by
  rw [Config.blocksOf]
  split
  · exact cons_ne_nil _ _
  next h =>
    rw [← length_pos_iff, length_chunks]
    exact chunkCount_pos (blockSize_pos t) (length_pos_iff.mpr h)

theorem StreamOf.ordered (h : StreamOf (t.blocksOf content) 0 frags err stream)
    (hfew : (t.blocksOf content).length ≤ 4294967296) :
    Ordered stream (t.blocksOf content).length :=
  ⟨hfew, h.length_le, fun i b hi => by rw [(h.block i b hi).1, UInt32.zero_add], fun i b hi => (h.block i b hi).2.2⟩

theorem mem_packetsOf_stream {pkt : Packet} (h : StreamOf (t.blocksOf content) 0 frags err stream)
    (hpkt : pkt ∈ packetsOf id sc sourceNode replyBlock sub frags) :
    ∃ (i : Nat) (b : CodedBlock rs t.dataShards.toNat t.parityShards.toNat s id sub),
      stream[i]? = some b ∧ pkt ∈ packetsOf id sc sourceNode replyBlock sub b.frags := by
  simp only [packetsOf, h.frags, List.mem_map, mem_flatMap] at hpkt ⊢
  obtain ⟨piece, ⟨frag, ⟨b, hb, hfrag⟩, hpiece⟩, rfl⟩ := hpkt
  obtain ⟨i, hi⟩ := mem_iff_getElem?.mp hb
  exact ⟨i, b, hi, piece, ⟨frag, hfrag, hpiece⟩, rfl⟩

theorem stream_assembling (hrs : rs.Lawful) (h : StreamOf (t.blocksOf content) 0 frags err stream)
    (hfew : (t.blocksOf content).length ≤ 4294967296)
    (hsa : (newStreamAssembler init).For rx t.dataShards.toNat t.parityShards.toNat s id)
    (harr : arrivals ⊆ packetsOf id sc sourceNode replyBlock sub frags) :
    ∃ sa, (newStreamAssembler init).addAll rx rs arrivals = .ok sa ∧
      Assembling rx stream (t.blocksOf content).length arrivals.reverse sa := by
  have hstart : Flushing rx stream (t.blocksOf content).length [] (newStreamAssembler init) :=
    ⟨hsa, rfl, Nat.zero_le _, length_pos_iff.mpr (blocksOf_ne_nil t content), rfl,
      fun i b _ => ⟨[], .fresh rfl, fun _ => rfl⟩, fun i _ => get?_empty i⟩
  have hgoing : Assembling rx stream (t.blocksOf content).length [] (newStreamAssembler init) :=
    .going hstart fun x hx => nomatch (get?_empty _).symm.trans hx
  obtain ⟨sa, hadd, hsa'⟩ := addAll_assembling hrs (h.ordered hfew) hgoing fun pkt hpkt => by
    obtain ⟨i, b, hi, hmem⟩ := mem_packetsOf_stream h (harr hpkt)
    exact ⟨i, b, hi, CodedBlock.owns_of_mem hmem⟩
  exact ⟨sa, hadd, by rwa [append_nil] at hsa'⟩

variable {i : Nat} {b : CodedBlock rs t.dataShards.toNat t.parityShards.toNat s id sub}

theorem filter_blockIndex (h : StreamOf (t.blocksOf content) 0 frags err stream)
    (hfew : (t.blocksOf content).length ≤ 4294967296)
    (hi : stream[i]? = some b) :
    frags.filter (·.blockIndex = UInt32.ofNat i) = b.frags := by
  have hord := h.ordered hfew
  have hindex : ∀ {j b'}, stream[j]? = some b' → ∀ frag ∈ b'.frags, frag.blockIndex = UInt32.ofNat j :=
    fun {_ b'} hj frag hfrag => (b'.tagged frag hfrag).1.trans (hord.index _ _ hj)
  rw [h.frags, filter_flatMap, flatMap_eq_of_place hi fun j b' hj hne => ?_]
  · exact filter_eq_self.mpr fun frag hfrag => by simpa using hindex hi frag hfrag
  · refine filter_eq_nil_iff.mpr fun frag hfrag hsame => hne ?_
    rw [hindex hj frag hfrag] at hsame
    exact ofNat_inj (ofNat_lt hord hj) (ofNat_lt hord hi) (by simpa using hsame)

theorem length_done_ofBlock (h : StreamOf (t.blocksOf content) 0 frags err stream)
    (hfew : (t.blocksOf content).length ≤ 4294967296)
    (harr : arrivals ⊆ packetsOf id sc sourceNode replyBlock sub frags) (hi : stream[i]? = some b) :
    (b.plan.done (ofBlock i arrivals.reverse)).length =
      b.frags.countP fun frag => Arrived (packetOf id sc sourceNode replyBlock) sub arrivals frag := by
  have hord := h.ordered hfew
  have hown : ofBlock i arrivals ⊆ packetsOf id sc sourceNode replyBlock sub b.frags := by
    intro pkt hpkt
    obtain ⟨hmem, hblock⟩ := mem_filter.mp hpkt
    obtain ⟨j, b', hj, hpkt'⟩ := mem_packetsOf_stream h (harr hmem)
    have hji : UInt32.ofNat j = UInt32.ofNat i := by
      rw [← hord.index j b' hj, ← (CodedBlock.owns_of_mem hpkt').blockIndex]
      simpa using hblock
    obtain rfl : j = i := ofNat_inj (ofNat_lt hord hj) (ofNat_lt hord hi) hji
    obtain rfl := mem_unique hj hi
    exact hpkt'
  have hrev : b.plan.done (ofBlock i arrivals.reverse) = b.plan.done (ofBlock i arrivals) :=
    Plan.done_congr fun pkt => by simp [ofBlock]
  rw [hrev, CodedBlock.plan, length_done (fun j frag hj => (b.fragments.place j frag hj).index) hown]
  refine countP_congr fun frag hfrag => ?_
  have hblock : ∀ piece ∈ fragmentPieces frag sub, (packetOf id sc sourceNode replyBlock piece).blockIndex =
      UInt32.ofNat i := by
    intro piece hpiece
    obtain ⟨k, part, -, rfl⟩ := mem_fragmentPieces.mp hpiece
    exact (b.tagged frag hfrag).1.trans (hord.index i b hi)
  rw [decide_eq_true_iff, decide_eq_true_iff]
  refine forall₂_congr fun piece hpiece => ?_
  rw [ofBlock, mem_filter, hblock piece hpiece]
  simp

theorem stream_finished (hrs : rs.Lawful) (h : StreamOf (t.blocksOf content) 0 frags none stream)
    (hfew : (t.blocksOf content).length ≤ 4294967296)
    (hsa : (newStreamAssembler init).For rx t.dataShards.toNat t.parityShards.toNat s id) :
    ∃ sa, (newStreamAssembler init).addAll rx rs (packetsOf id sc sourceNode replyBlock sub frags) = .ok sa ∧
      Finished rx stream (t.blocksOf content).length sa := by
  have hlen := h.complete rfl
  have hne : stream ≠ [] := fun hnil => blocksOf_ne_nil t content (length_eq_zero_iff.mp (by rw [← hlen, hnil]; rfl))
  obtain ⟨b₀, -⟩ := exists_mem_of_ne_nil stream hne
  obtain ⟨sa, hadd, hasm⟩ :=
    stream_assembling hrs h hfew hsa (List.Subset.refl (packetsOf id sc sourceNode replyBlock sub frags))
  refine ⟨sa, hadd, ?_⟩
  have hdone := hasm.done_of_enough hlen (fun i b hi => ?_) b₀.dataShards_pos
  · cases hasm with
    | going hgo _ =>
      rw [hgo.going] at hdone
      cases hdone
    | finished hfin => exact hfin
  · rw [length_done_ofBlock h hfew (List.Subset.refl _) hi, countP_eq_length.mpr fun frag hfrag => ?_,
      b.fragments.length, hrs.length b.coded]
    · exact Nat.le_add_right _ _
    · refine decide_eq_true fun piece hpiece => mem_map_of_mem (mem_flatMap.mpr ⟨frag, ?_, hpiece⟩)
      rw [h.frags]
      exact mem_flatMap.mpr ⟨b, mem_of_getElem? hi, hfrag⟩

theorem take_map_out (h : StreamOf (t.blocksOf content) 0 frags err stream)
    (hlen : ∀ block ∈ t.blocksOf content, block.length < 4294967296) {k : Nat} (hk : k ≤ stream.length) :
    (stream.take k).map (·.out) = (t.blocksOf content).take k := by
  refine ext_getElem? fun i => ?_
  rw [getElem?_map, getElem?_take, getElem?_take]
  split
  next hi =>
    have hb := getElem?_eq_getElem (Nat.lt_of_lt_of_le hi hk)
    obtain ⟨-, hdata, -⟩ := h.block i _ hb
    have hsmall := hlen _ (mem_of_getElem? hdata)
    rw [hb, hdata, map_some, CodedBlock.out, UInt32.toNat_ofNat_of_lt' hsmall, take_length]
  · rfl

theorem map_out (h : StreamOf (t.blocksOf content) 0 frags err stream)
    (hlen : ∀ block ∈ t.blocksOf content, block.length < 4294967296)
    (hall : stream.length = (t.blocksOf content).length) :
    stream.map (·.out) = t.blocksOf content := by
  have htake := take_map_out h hlen (Nat.le_refl stream.length)
  rwa [take_length, hall, take_length] at htake

theorem for_newStreamAssembler (hrs : rs.Lawful) (hne : stream ≠ [])
    {hybrid pq resumable : Bool} (hopen : rx.recipientOpener { hybridSealed := hybrid, pq } = some s)
    (hinit : init.id = id ∧ schemeFromPacket init = t.streamScheme hybrid pq resumable) :
    (newStreamAssembler init).For rx t.dataShards.toNat t.parityShards.toNat s id := by
  obtain ⟨b, hb⟩ := exists_mem_of_ne_nil stream hne
  have hfew := hrs.few (ReedSolomon.new_of_shards b.coded)
  obtain ⟨hid, hscheme⟩ := hinit
  have hdata : init.dataShards = UInt32.ofNat t.dataShards.toNat := congrArg Scheme.dataShards hscheme
  have hparity : init.parityShards = UInt32.ofNat t.parityShards.toNat := congrArg Scheme.parityShards hscheme
  have hhybrid : init.hybridSealed = hybrid := congrArg Scheme.hybridSealed hscheme
  have hpq : init.pq = pq := congrArg Scheme.pq hscheme
  refine ⟨hid, ?_, ?_, ?_⟩
  · rw [newStreamAssembler, hdata, UInt32.toNat_ofNat_of_lt' (by simp only [UInt32.size]; omega)]
  · rw [newStreamAssembler, hparity, UInt32.toNat_ofNat_of_lt' (by simp only [UInt32.size]; omega)]
  · rw [newStreamAssembler, hhybrid, hpq, hopen]

theorem silent_or_stream (hrs : rs.Lawful) {sealer opener : Option Sealer} (hopen : Undoes opener sealer)
    {start : UInt32} (hsend : t.streamBlocks rs content id sealer start = (frags, err))
    (hpieces : ∀ frag ∈ frags, (fragmentPieces frag sub).length < 4294967296) :
    (frags = [] ∧ err ≠ none) ∨ ∃ s, opener = some s ∧
      ∃ stream : List (CodedBlock rs t.dataShards.toNat t.parityShards.toNat s id sub),
        StreamOf (t.blocksOf content) start frags err stream ∧ stream ≠ [] := by
  cases sealer with
  | none =>
    rw [streamBlocks_none] at hsend
    cases hsend
    exact .inl ⟨rfl, nofun⟩
  | some s' =>
    cases opener with
    | none => cases hopen
    | some s =>
      obtain ⟨stream, hstream⟩ := streamBlocks_spec hrs hopen hsend hpieces
      by_cases hnil : stream = []
      · subst hnil
        refine .inl ⟨hstream.frags, fun herr => blocksOf_ne_nil t content ?_⟩
        exact length_eq_zero_iff.mp (hstream.complete herr).symm
      · exact .inr ⟨s, rfl, stream, hstream, hnil⟩

/-- The assembler writes the blocks of the content in order, as far as it has them, and finishes when it has written
    the last; and it writes every block of which enough shards have come. --/
theorem stream_assembled (hrs : rs.Lawful) {sealer : Option Sealer} {hybrid pq resumable : Bool}
    (hsend : t.streamBlocks rs content id sealer 0 = (frags, err)) (hsc : sc = t.streamScheme hybrid pq resumable)
    (hopen : Undoes (rx.recipientOpener { hybridSealed := hybrid, pq }) sealer)
    (hblocks : (t.blocksOf content).length < 4294967296)
    (hlen : ∀ block ∈ t.blocksOf content, block.length < 4294967296)
    (hpieces : ∀ frag ∈ frags, (fragmentPieces frag sub).length < 4294967296)
    (hinit : init.id = id ∧ schemeFromPacket init = sc)
    (harr : arrivals ⊆ packetsOf id sc sourceNode replyBlock sub frags) :
    (t.blocksOf content).flatten = content ∧ ∃ sa, (newStreamAssembler init).addAll rx rs arrivals = .ok sa ∧
      sa.nextFlush.toNat ≤ (t.blocksOf content).length ∧
      (sa.done = true ↔ sa.nextFlush.toNat = (t.blocksOf content).length) ∧
      (sa.done = false → sa.events = ((t.blocksOf content).take sa.nextFlush.toNat).map .write) ∧
      (sa.done = true → ∃ ack, sa.events = (t.blocksOf content).map .write ++
        [.finish (if rx.hasSink ∨ !rx.hasOnData then none else some content) ack]) ∧
      (err = none → (∀ i < (t.blocksOf content).length, t.dataShards ≤
          (frags.filter (·.blockIndex = UInt32.ofNat i)).countP fun frag =>
            Arrived (packetOf id sc sourceNode replyBlock) sub arrivals frag) → sa.done = true) := by
  refine ⟨flatten_blocksOf t content, ?_⟩
  have hpos : 0 < (t.blocksOf content).length := length_pos_iff.mpr (blocksOf_ne_nil t content)
  obtain ⟨rfl, herr⟩ | ⟨s, hs, stream, hstream, hne⟩ := silent_or_stream hrs hopen hsend hpieces
  · obtain rfl : arrivals = [] := subset_nil.mp harr
    refine ⟨newStreamAssembler init, rfl, Nat.zero_le _, ⟨nofun, fun h => ?_⟩, fun _ => rfl, nofun,
      fun h => absurd h herr⟩
    exact absurd h (Nat.ne_of_lt hpos)
  · have hsa := for_newStreamAssembler hrs hne hs (hsc ▸ hinit)
    obtain ⟨sa, hadd, hasm⟩ := stream_assembling hrs hstream (Nat.le_of_lt hblocks) hsa harr
    refine ⟨sa, hadd, ?_⟩
    have hlive : err = none → (∀ i < (t.blocksOf content).length, t.dataShards ≤
        (frags.filter (·.blockIndex = UInt32.ofNat i)).countP fun frag =>
          Arrived (packetOf id sc sourceNode replyBlock) sub arrivals frag) → sa.done = true := by
      intro herr hall
      obtain ⟨b, hb⟩ := exists_mem_of_ne_nil stream hne
      refine hasm.done_of_enough (hstream.complete herr) (fun i b hi => ?_) b.dataShards_pos
      have hi' : i < (t.blocksOf content).length :=
        Nat.lt_of_lt_of_le (lt_of_getElem? hi) hstream.length_le
      have hmany := hall i hi'
      rw [filter_blockIndex hstream (Nat.le_of_lt hblocks) hi] at hmany
      rw [length_done_ofBlock hstream (Nat.le_of_lt hblocks) harr hi]
      omega
    cases hasm with
    | going hgo _ =>
      refine ⟨Nat.le_of_lt hgo.next_lt, ⟨fun h => ?_, fun h => ?_⟩, fun _ => ?_, fun h => ?_, hlive⟩
      · rw [hgo.going] at h
        cases h
      · exact absurd h (Nat.ne_of_lt hgo.next_lt)
      · rw [hgo.events, ← take_map_out hstream hlen hgo.next_le, List.map_map]
        rfl
      · rw [hgo.going] at h
        cases h
    | finished hfin =>
      have hout := map_out hstream hlen hfin.length
      have hnext : sa.nextFlush.toNat = (t.blocksOf content).length := by
        rw [hfin.next, UInt32.toNat_ofNat_of_lt' hblocks]
      refine ⟨Nat.le_of_eq hnext, ⟨fun _ => hnext, fun _ => hfin.done⟩, fun h => ?_, fun _ => ?_, hlive⟩
      · rw [hfin.done] at h
        cases h
      · obtain ⟨ack, hevents⟩ := hfin.events
        refine ⟨ack, ?_⟩
        rw [hevents, hout, flatten_blocksOf, ← hout, List.map_map]
        rfl

end Stream

/-! ### A stream with one data shard and one parity shard -/

namespace Sample

def streamer (blockSize : Int) : Config := { node 1 1 16 (some labelSealer) with streamBlockSize := blockSize }

def streamScheme : Scheme := { dataShards := 1, parityShards := 1, streaming := true }

def streamInit : Packet := applyScheme { id := transferID, sourceNode := "sender" } streamScheme

def streamFrags : List Fragment := ((streamer 2).streamBlocks copies [1, 2, 3] transferID (some labelSealer) 0).1

def streamParity : List Packet :=
  (packetsOf transferID streamScheme "sender" [] 16 (streamFrags.filter (·.index = 1))).reverse

end Sample

open Sample in
theorem stream_assembled_parity : ∃ sa ack,
    (newStreamAssembler streamInit).addAll (streamer 2) copies streamParity = .ok sa ∧
      sa.events = [.write [1, 2], .write [3], .finish (some [1, 2, 3]) ack] := by
  have hsend : (streamer 2).streamBlocks copies [1, 2, 3] transferID (some labelSealer) 0 = (streamFrags, none) := rfl
  obtain ⟨-, sa, hadd, -, -, -, hdone, hlive⟩ := stream_assembled copies_lawful hsend
    (rfl : streamScheme = (streamer 2).streamScheme false false false)
    (show Undoes ((streamer 2).recipientOpener _) _ from undoes_labelSealer) (by decide) (by decide)
    (by decide : ∀ frag ∈ streamFrags, (fragmentPieces frag 16).length < 4294967296)
    (show streamInit.id = transferID ∧ schemeFromPacket streamInit = streamScheme from ⟨rfl, rfl⟩)
    (by decide : streamParity ⊆ packetsOf transferID streamScheme "sender" [] 16 streamFrags)
  obtain ⟨ack, hevents⟩ := hdone (hlive rfl (by decide))
  exact ⟨sa, ack, hadd, hevents⟩

namespace Sample

theorem encodeBlock_label (size : Int) (draw : Nat) (i : UInt32) (data : Bytes) (final : Bool) :
    ∃ frags, (streamer size).encodeBlock copies draw transferID i data final (some labelSealer) = .ok frags := by
  have hne : padTo 1 data ≠ [] := by
    cases data with
    | nil => decide
    | cons a l => exact cons_ne_nil _ _
  have hlen : (1 : Int) ≤ (padTo 1 data).length := by
    have := length_pos_iff.mpr hne
    omega
  obtain ⟨frags, hfrags⟩ := sealParts_label draw transferID "shard" 2 0 (List.replicate 2 (padTo 1 data))
  refine ⟨_, bind_eq_ok.mpr
    ⟨⟨labelSealer, 1, 1, by decide⟩, rfl, bind_eq_ok.mpr ⟨(frags, (padTo 1 data).length), ?_, rfl⟩⟩⟩
  exact RSFragmenter.fragment_ok hlen (copies_shards_ok (by decide) hne) hfrags

theorem streamLoop_label (size : Int) (draw : Nat) (i : UInt32) (prev : Bytes × Bool) (rest : List (Bytes × Bool)) :
    (streamLoop (fun draw i data final => (streamer size).encodeBlock copies draw transferID i data final
      (some labelSealer))
      draw i prev rest).2 = none := by
  induction rest generalizing draw i prev with
  | nil =>
    obtain ⟨frags, hfrags⟩ := encodeBlock_label size draw i prev.1 true
    simp only [streamLoop, hfrags]
  | cons next rest ih =>
    obtain ⟨frags, hfrags⟩ := encodeBlock_label size draw i prev.1 prev.2
    simp only [streamLoop, hfrags]
    split
    · rfl
    · exact ih _ _ _

variable {sub : Int} {frags : List Fragment} {rx : Config} {sa : StreamAssembler} {id : TransferID}

theorem streamer_finishes (size : Int) (content : Bytes)
    (hfew : ((streamer size).blocksOf content).length ≤ 4294967296)
    (hpieces : ∀ frag ∈ ((streamer size).streamBlocks copies content transferID (some labelSealer) 0).1,
      (fragmentPieces frag sub).length < 4294967296) :
    ∃ frags sa, ∃ stream : List (CodedBlock copies 1 1 labelSealer transferID sub),
      (streamer size).streamBlocks copies content transferID (some labelSealer) 0 = (frags, none) ∧
      (newStreamAssembler streamInit).addAll (streamer size) copies
        (packetsOf transferID streamScheme "sender" [] sub frags) = .ok sa ∧
      StreamOf ((streamer size).blocksOf content) 0 frags none stream ∧
      Finished (streamer size) stream ((streamer size).blocksOf content).length sa := by
  have herr : ((streamer size).streamBlocks copies content transferID (some labelSealer) 0).2 = none := by
    rw [Config.streamBlocks]
    split <;> exact streamLoop_label size _ _ _ _
  have hsend : (streamer size).streamBlocks copies content transferID (some labelSealer) 0 = (_, none) :=
    Prod.ext rfl herr
  obtain ⟨stream, hstream⟩ := streamBlocks_spec copies_lawful undoes_labelSealer hsend hpieces
  obtain ⟨sa, hadd, hfin⟩ := stream_finished copies_lawful hstream hfew
    (show (newStreamAssembler streamInit).For (streamer size) 1 1 labelSealer transferID from ⟨rfl, rfl, rfl, rfl⟩)
  exact ⟨_, sa, stream, hsend, hadd, hstream, hfin⟩

theorem pieces_zero : ∀ frag ∈ frags, (fragmentPieces frag 0).length < 4294967296 := by
  intro frag _
  rw [fragmentPieces, if_pos (.inl (by decide)), length_singleton]
  decide

variable {n : Nat} {stream : List (CodedBlock copies 1 1 labelSealer transferID sub)} {pkt : Packet}

theorem output_of_finished (h : Finished rx stream n sa) :
    sa.output = (stream.map (·.out)).flatten := by
  obtain ⟨ack, hevents⟩ := h.events
  rw [StreamAssembler.output, hevents, map_append, List.map_map, flatten_append]
  simp only [map_cons, map_nil, StreamEvent.written, flatten_cons, flatten_nil, append_nil]
  rfl

theorem blocksOf_long_self : (streamer 4294967296).blocksOf long = [long] := by
  have hne : long ≠ [] := fun h => absurd (h ▸ length_long) (by decide)
  rw [Config.blocksOf, if_neg hne, chunks_of_length_le hne (by rw [length_long]; decide)]

theorem output_long (hstream : StreamOf ((streamer 4294967296).blocksOf long) 0 frags none stream)
    (hfin : Finished (streamer 4294967296) stream n sa) :
    sa.output = [] := by
  rw [output_of_finished hfin, flatten_eq_nil_iff]
  intro out hout
  obtain ⟨b, hb, rfl⟩ := mem_map.mp hout
  obtain ⟨i, hi⟩ := mem_iff_getElem?.mp hb
  obtain ⟨-, hdata, -⟩ := hstream.block i b hi
  rw [blocksOf_long_self] at hdata
  rw [CodedBlock.out, mem_singleton.mp (mem_of_getElem? hdata), length_long]
  rfl

theorem length_blocksOf_long_one : ((streamer 1).blocksOf long).length = 4294967296 := by
  have hne : long ≠ [] := fun h => absurd (h ▸ length_long) (by decide)
  rw [Config.blocksOf, if_neg hne, length_chunks, length_long]
  decide

/-! A shard that is cut into 2^32 pieces: every piece says that it is the only one, and none of them opens. -/

theorem length_aad (id : TransferID) (i total : UInt32) : (aad id i total).length = 40 := by
  simp [aad, id.2]

theorem open_short {c : Bytes} (hc : c.length ≤ 1) (id : TransferID) (i total : UInt32) :
    (labelSealer.openBytes c (aad id i total)).toOption = none := by
  have hlong : ¬aad id i total <+: c := by
    intro h
    have hlen := h.length_le
    rw [length_aad] at hlen
    omega
  simp [labelSealer, hlong, Except.toOption]

theorem reconstruct_short {r : RSReassembler} (hs : r.sealer = some labelSealer) (hd : r.dataShards = 1)
    (hp : r.parityShards = 1) (hshort : ∀ j c, r.parts.get? j = some c → c.length ≤ 1) :
    r.reconstruct copies id = .error (.error errTooFewShards) := by
  have hnone : ∀ i, r.plain? labelSealer id i = none := by
    intro i
    cases hpart : r.parts.get? (UInt32.ofNat i) with
    | none => simp [RSReassembler.plain?, hpart]
    | some c => simp [RSReassembler.plain?, hpart, open_short (hshort _ c hpart)]
  have hvalid : (r.openShards labelSealer id).2 = 0 := by simp [RSReassembler.openShards, hnone]
  simp [RSReassembler.reconstruct, hs, hd, hp, hvalid, copies, bind, Except.bind, pure, Except.pure,
    throw, throwThe, MonadExceptOf.throw]

theorem reconstruct_chunks_short {chunks : GoMap UInt32 Bytes} (originalLen : Int) (total : UInt32)
    (hshort : ∀ j c, chunks.get? j = some c → c.length ≤ 1) :
    (addShards (newRSReassembler (some labelSealer) 1 1 originalLen) id total chunks).reconstruct copies id =
      .error (.error errTooFewShards) := by
  obtain ⟨parts, hadd, hparts⟩ :=
    addShards_spec (r := newRSReassembler (some labelSealer) 1 1 originalLen) id total chunks rfl
  rw [hadd]
  refine reconstruct_short rfl rfl rfl fun j c hc => hshort j c ?_
  have hpart := (hparts j).symm.trans hc
  split at hpart
  · exact hpart
  · cases hpart

structure Stuck (rx : Config) (sa : StreamAssembler) : Prop where
  same : sa.For rx 1 1 labelSealer transferID
  going : sa.done = false
  short : ∀ i x, sa.blocks.get? i = some x → x.ready = false ∧ ∀ j c, x.chunks.get? j = some c → c.length ≤ 1

theorem Stuck.flushLoop (h : Stuck rx sa) (rounds : Nat) :
    StreamAssembler.flushLoop rx rounds sa = sa := by
  cases rounds with
  | zero => rfl
  | succ rounds =>
    rw [StreamAssembler.flushLoop]
    split
    · rfl
    · next x hx => rw [(h.short _ x hx).1, if_neg Bool.false_ne_true]

theorem record_short {b : Buffers} (hb : ∀ j c, b.chunks.get? j = some c → c.length ≤ 1)
    (hsub : pkt.subTotal = 0) (hpayload : pkt.payload.length ≤ 1) :
    ∀ j c, (b.record pkt).chunks.get? j = some c → c.length ≤ 1 := by
  intro j c hc
  cases hget : b.chunks.get? pkt.chunkNumber with
  | some p =>
    rw [(Buffers.record_none (Buffers.absorb_received (by rw [hget]; rfl))).1] at hc
    exact hb j c hc
  | none =>
    rw [(Buffers.record_some (Buffers.absorb_single hget (by rw [hsub]; decide))).1, get?_set] at hc
    split at hc
    · exact Option.some.inj hc ▸ hpayload
    · exact hb j c hc

theorem Stuck.add (h : Stuck rx sa) (hsub : pkt.subTotal = 0)
    (hpayload : pkt.payload.length ≤ 1) : ∃ sa', sa.add rx copies pkt = .ok sa' ∧ Stuck rx sa' := by
  have hb : ((sa.blocks.get? pkt.blockIndex).getD (newStreamBlock pkt)).ready = false ∧
      ∀ j c, ((sa.blocks.get? pkt.blockIndex).getD (newStreamBlock pkt)).chunks.get? j = some c → c.length ≤ 1 := by
    cases hx : sa.blocks.get? pkt.blockIndex with
    | none => exact ⟨rfl, fun j c hc => nomatch (get?_empty j).symm.trans hc⟩
    | some x => exact h.short _ x hx
  obtain ⟨b, hb0⟩ : ∃ b, (sa.blocks.get? pkt.blockIndex).getD (newStreamBlock pkt) = b := ⟨_, rfl⟩
  rw [hb0] at hb
  have hshort := record_short hb.2 hsub hpayload
  have habsorb : sa.absorb rx copies b pkt = .ok { b with toBuffers := b.toBuffers.record pkt } := by
    have hfail : sa.reconstructBlock rx copies { b with toBuffers := b.toBuffers.record pkt } =
        .error (.error errTooFewShards) := by
      rw [StreamAssembler.reconstructBlock, h.same.opener, h.same.dataShards, h.same.parityShards]
      exact reconstruct_chunks_short b.blockLen b.total hshort
    rw [StreamAssembler.absorb]
    split
    · rw [hfail]
    · rfl
  have hadd := add_take (x := { b with toBuffers := b.toBuffers.record pkt }) h.going (by rw [hb0]; exact hb.1)
    (by rw [hb0]; exact habsorb)
  refine ⟨_, hadd, ?_⟩
  have hset : Stuck rx
      { sa with blocks := sa.blocks.set pkt.blockIndex { b with toBuffers := b.toBuffers.record pkt } } := by
    refine ⟨⟨h.same.id, h.same.dataShards, h.same.parityShards, h.same.opener⟩, h.going, fun i x hx => ?_⟩
    rw [get?_set] at hx
    split at hx
    · cases hx
      exact ⟨hb.1, hshort⟩
    · exact h.short i x hx
  rw [StreamAssembler.flushReady, hset.flushLoop]
  exact hset

theorem Stuck.addAll (h : Stuck rx sa) {pkts : List Packet}
    (hpkts : ∀ pkt ∈ pkts, pkt.subTotal = 0 ∧ pkt.payload.length ≤ 1) :
    ∃ sa', sa.addAll rx copies pkts = .ok sa' ∧ Stuck rx sa' := by
  induction pkts generalizing sa with
  | nil => exact ⟨sa, rfl, h⟩
  | cons pkt pkts ih =>
    obtain ⟨hsub, hpayload⟩ := hpkts pkt mem_cons_self
    obtain ⟨sa', hadd, h'⟩ := h.add hsub hpayload
    obtain ⟨sa'', hmore, h''⟩ := ih h' fun q hq => hpkts q (mem_cons_of_mem pkt hq)
    refine ⟨sa'', ?_, h''⟩
    rw [StreamAssembler.addAll, foldlM_cons, hadd]
    exact hmore

def fitting : Bytes := List.replicate 4294967256 0

theorem length_fitting : fitting.length = 4294967256 := length_replicate

theorem length_of_open {sealed a plain : Bytes} (h : labelSealer.openBytes sealed a = .ok plain) :
    sealed.length = a.length + plain.length := by
  simp only [labelSealer] at h
  split at h
  next hpre =>
    cases h
    have hle := (List.isPrefixOf_iff_prefix.mp hpre).length_le
    rw [length_drop]
    omega
  · cases h

theorem blocksOf_fitting : (streamer 4294967296).blocksOf fitting = [fitting] := by
  have hne : fitting ≠ [] := fun h => absurd (h ▸ length_fitting) (by decide)
  rw [Config.blocksOf, if_neg hne, chunks_of_length_le hne (by rw [length_fitting]; decide)]

theorem length_payload {size : Int} {content : Bytes} (hone : (streamer size).blocksOf content = [content])
    (hne : content ≠ [])
    (hsend : (streamer size).streamBlocks copies content transferID (some labelSealer) 0 = (frags, none)) :
    ∀ frag ∈ frags, frag.payload.length = 40 + content.length := by
  obtain ⟨stream, hstream⟩ := streamBlocks_spec copies_lawful undoes_labelSealer hsend pieces_zero
  have hpad : padTo 1 content = content := by
    have hpos := length_pos_iff.mpr hne
    rw [padTo, Nat.sub_eq_zero_of_le hpos, replicate_zero, append_nil]
  intro frag hfrag
  rw [hstream.frags, mem_flatMap] at hfrag
  obtain ⟨b, hb, hfrag⟩ := hfrag
  obtain ⟨i, hi⟩ := mem_iff_getElem?.mp hb
  obtain ⟨-, hdata, -⟩ := hstream.block i b hi
  obtain ⟨-, -, hshards⟩ := copies_shards b.coded
  obtain ⟨j, hj⟩ := mem_iff_getElem?.mp hfrag
  obtain ⟨shard, hshard, hopens⟩ := (b.fragments.place j frag hj).opens
  rw [hone] at hdata
  rw [hshards] at hshard
  rw [length_of_open hopens, length_aad, eq_of_mem_replicate (mem_of_getElem? hshard),
    mem_singleton.mp (mem_of_getElem? hdata), show (streamer size).dataShards.toNat = 1 from rfl, hpad]

theorem packet_single (hpayload : ∀ frag ∈ frags, frag.payload.length = 4294967296) {sc : Scheme}
    {sourceNode : String} {replyBlock : Bytes} :
    ∀ pkt ∈ packetsOf id sc sourceNode replyBlock 1 frags, pkt.subTotal = 0 ∧ pkt.payload.length ≤ 1 := by
  intro pkt hpkt
  obtain ⟨i, frag, k, part, hfrag, hpart, rfl⟩ := mem_packetsOf.mp hpkt
  have hlen := hpayload frag (mem_of_getElem? hfrag)
  have hparts : pieceParts frag 1 = chunks 1 frag.payload := by
    rw [pieceParts, if_neg (by omega), split_of_pos (by decide)]
    rfl
  have hcount : (pieceParts frag 1).length = 4294967296 := by
    rw [hparts, length_chunks, chunkCount_one, hlen]
  constructor
  · rw [show (packetOf id sc sourceNode replyBlock (pieceAt frag 1 k part)).subTotal =
      UInt32.ofNat (pieceParts frag 1).length from rfl, hcount]
    rfl
  · rw [hparts] at hpart
    exact length_le_of_mem_chunks (mem_of_getElem? hpart)

theorem pieces_fitting
    (hsend : (streamer 4294967296).streamBlocks copies fitting transferID (some labelSealer) 0 = (frags, none)) :
    ∀ pkt ∈ packetsOf transferID streamScheme "sender" [] 1 frags, pkt.subTotal = 0 ∧ pkt.payload.length ≤ 1 := by
  refine packet_single fun frag hfrag => ?_
  rw [length_payload blocksOf_fitting (fun h => absurd (h ▸ length_fitting) (by decide)) hsend frag
    hfrag, length_fitting]

end Sample

open Sample in
/-- All packets arrive, yet: of a block of 2^32 bytes nothing is written; after 2^32 blocks `nextFlush` is 0 again; and
    shards of 2^32 pieces are never put together. --/
theorem stream_truncates :
    (∃ frags sa, (streamer 4294967296).streamBlocks copies long transferID (some labelSealer) 0 = (frags, none) ∧
      (newStreamAssembler streamInit).addAll (streamer 4294967296) copies
        (packetsOf transferID streamScheme "sender" [] 0 frags) = .ok sa ∧ sa.done = true ∧ sa.output = []) ∧
    (∃ frags sa, (streamer 1).streamBlocks copies long transferID (some labelSealer) 0 = (frags, none) ∧
      (newStreamAssembler streamInit).addAll (streamer 1) copies
        (packetsOf transferID streamScheme "sender" [] 0 frags) = .ok sa ∧ sa.nextFlush = 0 ∧ sa.output = long) ∧
    (∃ frags sa, (streamer 4294967296).streamBlocks copies fitting transferID (some labelSealer) 0 = (frags, none) ∧
      (newStreamAssembler streamInit).addAll (streamer 4294967296) copies
        (packetsOf transferID streamScheme "sender" [] 1 frags) = .ok sa ∧ sa.done = false) := by
  refine ⟨?_, ?_, ?_⟩
  · obtain ⟨frags, sa, stream, hsend, hadd, hstream, hfin⟩ :=
      streamer_finishes 4294967296 long (by rw [blocksOf_long_self]; decide)
      pieces_zero
    exact ⟨frags, sa, hsend, hadd, hfin.done, output_long hstream hfin⟩
  · obtain ⟨frags, sa, stream, hsend, hadd, hstream, hfin⟩ :=
      streamer_finishes 1 long (by rw [length_blocksOf_long_one])
      pieces_zero
    refine ⟨frags, sa, hsend, hadd, ?_, ?_⟩
    · rw [hfin.next, length_blocksOf_long_one]
      rfl
    · have hlen : ∀ block ∈ (streamer 1).blocksOf long, block.length < 4294967296 := by
        have hne : long ≠ [] := fun h => absurd (h ▸ length_long) (by decide)
        rw [Config.blocksOf, if_neg hne]
        exact fun block hblock => Nat.lt_of_le_of_lt (length_le_of_mem_chunks hblock) (by decide)
      have hout : stream.map (·.out) = (streamer 1).blocksOf long := map_out hstream hlen hfin.length
      rw [output_of_finished hfin, hout, flatten_blocksOf]
  · obtain ⟨frags, -, -, hsend, -⟩ := streamer_finishes 4294967296 fitting (by rw [blocksOf_fitting]; decide)
      pieces_zero
    have hstuck : Stuck (streamer 4294967296) (newStreamAssembler streamInit) :=
      ⟨⟨rfl, rfl, rfl, rfl⟩, rfl, fun i x hx => by cases (get?_empty i).symm.trans hx⟩
    obtain ⟨sa, hadd, hsa⟩ := hstuck.addAll (pieces_fitting hsend)
    exact ⟨frags, sa, hsend, hadd, hsa.going⟩

end SyncSwarm.Transfer
