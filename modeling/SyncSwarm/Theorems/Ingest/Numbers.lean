import SyncSwarm.Theorems.Ingest.Objects
import SyncSwarm.Theorems.Transfer.RoundTrip

/-! The numbers that packets claim. A reassembler is made from those of the packet that created the state,
    before any shard is opened. -/

namespace SyncSwarm.Fragment

structure RSReassembler.InRange (r : RSReassembler) : Prop where
  originalLen : 0 ≤ r.originalLen
  few : r.dataShards + r.parityShards ≤ 65536
  total : r.total.toNat = r.dataShards + r.parityShards

theorem newRSReassembler_inRange {sealer : Option Sealer} {d p : Nat} {len : Int} (hlen : 0 ≤ len)
    (hfew : d + p ≤ 65536) :
    (newRSReassembler sealer d p len).InRange where
  originalLen := hlen
  few := hfew
  total := UInt32.toNat_ofNat_of_lt' (Nat.lt_of_le_of_lt hfew (by decide))

end SyncSwarm.Fragment

namespace SyncSwarm.Transfer
open Lib Protocol Fragment

variable {k : Nat} {t : Config} {rs : ReedSolomon}

/-- Shard counts that an encoder can have used, with at most `k` parity shards for a data shard. --/
structure ShardCounts (k d p : Nat) : Prop where
  few : d + p ≤ 65536
  parity : p ≤ k * d

/-- The scheme of a packet and its number of fragments are what an encoder can have made. --/
structure Scheme.Sound (k : Nat) (sc : Scheme) (total : UInt32) : Prop where
  originalLen : sc.originalLen.toNat < 9223372036854775808
  coded : ShardCounts k sc.dataShards.toNat sc.parityShards.toNat
  total : 0 < sc.dataShards → total.toNat = sc.dataShards.toNat + sc.parityShards.toNat

instance (k d p : Nat) : Decidable (ShardCounts k d p) :=
  decidable_of_iff (d + p ≤ 65536 ∧ p ≤ k * d) ⟨fun h => ⟨h.1, h.2⟩, fun h => ⟨h.few, h.parity⟩⟩

instance (k : Nat) (sc : Scheme) (total : UInt32) : Decidable (sc.Sound k total) :=
  decidable_of_iff (sc.originalLen.toNat < 9223372036854775808 ∧
    ShardCounts k sc.dataShards.toNat sc.parityShards.toNat ∧
      (0 < sc.dataShards → total.toNat = sc.dataShards.toNat + sc.parityShards.toNat))
    ⟨fun h => ⟨h.1, h.2.1, h.2.2⟩, fun h => ⟨h.originalLen, h.coded, h.total⟩⟩

def Action.arriving? : Action → Option Packet
  | .forward pkt _ | .connect pkt | .chunk _ pkt => some pkt
  | _ => none

/-- What is reserved is in range and in proportion. --/
structure Reserve.Fits (k : Nat) (x : Reserve) : Prop where
  coded : ∀ r ∈ x.coded, r.InRange
  slots : x.slots ≤ (k + 1) * x.received

theorem intOfLen_nonneg {n : UInt64} (h : n.toNat < 9223372036854775808) : 0 ≤ intOfLen n := by
  rw [intOfLen, if_pos h]
  exact Int.natCast_nonneg _

theorem le_of_ofNat_le {d n : Nat} (hd : d < 4294967296) (h : UInt32.ofNat d ≤ UInt32.ofNat n) : d ≤ n := by
  have hle := UInt32.le_iff_toNat_le.mp h
  rw [UInt32.toNat_ofNat_of_lt' hd, UInt32.toNat_ofNat'] at hle
  exact Nat.le_trans hle (Nat.mod_le _ _)

theorem ShardCounts.slots {d p n : Nat} (h : ShardCounts k d p) (hd : d ≤ n) : d + p ≤ (k + 1) * n := by
  calc d + p ≤ d + k * d := Nat.add_le_add_left h.parity d
    _ = (k + 1) * d := by rw [Nat.add_mul, Nat.one_mul, Nat.add_comm]
    _ ≤ (k + 1) * n := Nat.mul_le_mul_left _ hd

/-! ### The two front ends -/

variable {st : TransferState}

/-- The reassembler of a coded transfer is the one that is reserved. --/
theorem reassemble_reserved (h : 0 < st.scheme.dataShards) : ∃ x ∈ t.reserves st, ∃ r ∈ x.coded,
    t.reassemble rs st = (addShards r st.id st.total st.chunks).reconstruct rs st.id := by
  rw [Config.reserves, Config.reassemble, if_pos h, if_pos h]
  exact ⟨_, List.mem_singleton_self _, _, rfl, rfl⟩

theorem fits_coded (hsound : st.scheme.Sound k st.total) (h : 0 < st.scheme.dataShards)
    (hd : st.scheme.dataShards.toNat ≤ st.received.len) : ∀ x ∈ t.reserves st, x.Fits k := by
  intro x hx
  rw [Config.reserves, if_pos h] at hx
  obtain rfl := List.mem_singleton.mp hx
  refine ⟨fun r hr => ?_, hsound.coded.slots hd⟩
  cases hr
  exact newRSReassembler_inRange (intOfLen_nonneg hsound.originalLen) hsound.coded.few

theorem fits_sequential (h : ¬0 < st.scheme.dataShards) (htotal : st.total.toNat ≤ st.received.len) :
    ∀ x ∈ t.reserves st, x.Fits k := by
  intro x hx
  rw [Config.reserves, if_neg h] at hx
  obtain rfl := List.mem_singleton.mp hx
  refine ⟨nofun, ?_⟩
  exact Nat.le_trans htotal (Nat.le_mul_of_pos_left _ (Nat.succ_pos k))

theorem total_le_of_complete (h : st.isCompleteLocked = true) : st.total.toNat ≤ st.received.len := by
  rw [TransferState.isCompleteLocked, Bool.and_eq_true, decide_eq_true_eq] at h
  rw [← h.1, UInt32.toNat_ofNat']
  exact Nat.mod_le _ _

theorem fits_complete (hsound : st.scheme.Sound k st.total) (h : st.isCompleteLocked = true) :
    ∀ x ∈ t.reserves st, x.Fits k := by
  have htotal := total_le_of_complete h
  by_cases hd : 0 < st.scheme.dataShards
  · refine fits_coded hsound hd ?_
    have := hsound.total hd
    omega
  · exact fits_sequential hd htotal

theorem fits_enough (hsound : st.scheme.Sound k st.total) (h : st.enoughToReassembleLocked = true) :
    ∀ x ∈ t.reserves st, x.Fits k := by
  rw [TransferState.enoughToReassembleLocked] at h
  split at h
  · next hd =>
    refine fits_coded hsound hd ?_
    have hle := UInt32.le_iff_toNat_le.mp (of_decide_eq_true h)
    rw [UInt32.toNat_ofNat'] at hle
    exact Nat.le_trans hle (Nat.mod_le _ _)
  · next hd => exact fits_sequential hd (total_le_of_complete h)

namespace StreamAssembler
variable {sa sa' : StreamAssembler} {pkt : Packet}

theorem reconstructBlock_reserved {b : StreamBlock} (hb : (sa.blocks.get? pkt.blockIndex).getD (newStreamBlock pkt) = b)
    (hopen : (sa.done || b.ready) = false)
    (henough : UInt32.ofNat sa.dataShards ≤ UInt32.ofNat (b.toBuffers.record pkt).received.len) :
    ∃ x ∈ sa.reserves t pkt, ∃ r ∈ x.coded,
      sa.reconstructBlock t rs { b with toBuffers := b.toBuffers.record pkt } =
        (addShards r sa.id b.total (b.toBuffers.record pkt).chunks).reconstruct rs sa.id := by
  rw [reserves, hb]
  dsimp only
  rw [hopen, if_neg Bool.false_ne_true, if_pos henough]
  exact ⟨_, List.mem_singleton_self _, _, rfl, rfl⟩

theorem fits (hcoded : ShardCounts k sa.dataShards sa.parityShards) : ∀ x ∈ sa.reserves t pkt, x.Fits k := by
  intro x hx
  rw [reserves] at hx
  dsimp only at hx
  split at hx
  · cases hx
  · split at hx
    · next henough =>
      obtain rfl := List.mem_singleton.mp hx
      have hd : sa.dataShards < 4294967296 := by
        have := hcoded.few
        omega
      refine ⟨fun r hr => ?_, hcoded.slots (le_of_ofNat_le hd henough)⟩
      cases hr
      exact newRSReassembler_inRange (Int.natCast_nonneg _) hcoded.few
    · cases hx

def shards (sa : StreamAssembler) : Nat × Nat := (sa.dataShards, sa.parityShards)

theorem shards_flushLoop (rounds : Nat) (sa : StreamAssembler) : (flushLoop t rounds sa).shards = sa.shards := by
  induction rounds generalizing sa with
  | zero => rfl
  | succ rounds ih =>
    rw [flushLoop]
    split
    · rfl
    · split
      · split
        · rfl
        · exact ih _
      · rfl

theorem shards_add (h : sa.add t rs pkt = .ok sa') : sa'.shards = sa.shards := by
  rw [add] at h
  split at h
  · cases h
    rfl
  · dsimp only at h
    split at h
    · cases h
      rfl
    · obtain ⟨b, -, rfl⟩ := map_eq_ok.mp h
      exact shards_flushLoop _ _

end StreamAssembler

/-! ### The receiver -/

namespace State
variable {st st' : State} {pkt : Packet} {phase : CallPhase}

structure Sound (k : Nat) (st : State) : Prop where
  scheme : st.scheme.Sound k st.total
  stream : ∀ sa ∈ st.stream, ShardCounts k sa.dataShards sa.parityShards

theorem Sound.of_kind (h : st.Sound k) (hkind : st'.kind = st.kind)
    (hstream : ∀ sa ∈ st'.stream, ShardCounts k sa.dataShards sa.parityShards) : st'.Sound k := by
  refine ⟨?_, hstream⟩
  rw [show st'.scheme = st.scheme from congrArg Kind.scheme hkind, show st'.total =
    st.total from congrArg Kind.total hkind]
  exact h.scheme

theorem coded_add {sa sa' : StreamAssembler} (h : ShardCounts k sa.dataShards sa.parityShards)
    (hadd : sa.add t rs pkt = .ok sa') :
    ShardCounts k sa'.dataShards sa'.parityShards := by
  have hshards := StreamAssembler.shards_add hadd
  rw [show sa'.dataShards = sa.dataShards from congrArg Prod.fst hshards, show sa'.parityShards =
    sa.parityShards from congrArg Prod.snd hshards]
  exact h

theorem Sound.assembler (h : st.Sound k) (hpkt : (schemeFromPacket pkt).Sound k pkt.totalChunks) :
    ShardCounts k (st.stream.getD (newStreamAssembler pkt)).dataShards
      (st.stream.getD (newStreamAssembler pkt)).parityShards := by
  cases hstream : st.stream with
  | none => exact hpkt.coded
  | some sa => exact h.stream sa hstream

theorem Sound.ingest (h : st.Sound k) (hpkt : (schemeFromPacket pkt).Sound k pkt.totalChunks)
    (hok : st.ingest t rs pkt = .ok (st', phase)) : st'.Sound k := by
  refine h.of_kind (ingest_cases hok).kind_eq ?_
  by_cases hs : pkt.streaming = true
  · rw [State.ingest, if_pos hs] at hok
    obtain ⟨sa, hsa, heq⟩ := map_eq_ok.mp hok
    obtain ⟨rfl, -⟩ := Prod.mk.inj heq
    intro sa' hsa'
    cases hsa'
    exact coded_add (h.assembler hpkt) hsa
  · cases ingest_cases hok with
    | streamed hstreaming _ => exact absurd hstreaming hs
    | late | kept | completed => exact h.stream

theorem Sound.processChunk (h : st.Sound k) (hok : st.processChunk t rs pkt = .ok st') : st'.Sound k := by
  refine h.of_kind (processChunk_kind hok) ?_
  rw [State.processChunk] at hok
  split at hok
  · next sa hsa =>
    obtain ⟨sa', hadd, rfl⟩ := map_eq_ok.mp hok
    intro sa'' hsa''
    cases hsa''
    exact coded_add (h.stream sa hsa) hadd
  · cases hok
    exact h.stream

theorem Sound.fits (h : st.Sound k) (hpkt : (schemeFromPacket pkt).Sound k pkt.totalChunks) :
    ∀ x ∈ st.reserves t pkt, x.Fits k := by
  rw [State.reserves]
  split
  · exact StreamAssembler.fits (h.assembler hpkt)
  · split
    · exact fun x hx => nomatch hx
    · dsimp only
      split
      · next henough => exact fits_enough h.scheme henough
      · exact fun x hx => nomatch hx

end State

namespace Receiver
variable {w u : Receiver} {a : Action}

structure Sound (k : Nat) (w : Receiver) : Prop where
  objects : ∀ st ∈ w.objects, st.Sound k
  calls : ∀ x ∈ w.calls, (schemeFromPacket x.pkt).Sound k x.pkt.totalChunks

/-- The packet that arrives claims what an encoder can have made. --/
def Claims (k : Nat) (a : Action) : Prop := ∀ pkt ∈ a.arriving?, (schemeFromPacket pkt).Sound k pkt.totalChunks

instance (k : Nat) (a : Action) : Decidable (Claims k a) :=
  inferInstanceAs (Decidable (∀ pkt ∈ a.arriving?, (schemeFromPacket pkt).Sound k pkt.totalChunks))

theorem sound_new : Sound k new :=
  ⟨fun _ hst => absurd hst List.not_mem_nil, fun _ hx => absurd hx List.not_mem_nil⟩

theorem Sound.object (h : Sound k w) {ref : Nat} {st : State} (hst : w.objects[ref]? = some st) : st.Sound k :=
  h.objects st (List.mem_of_getElem? hst)

theorem Sound.call (h : Sound k w) {c : Nat} {x : IngestCall} (hx : w.calls[c]? = some x) :
    (schemeFromPacket x.pkt).Sound k x.pkt.totalChunks :=
  h.calls x (List.mem_of_getElem? hx)

theorem Sound.step (h : Sound k w) (hclaims : Claims k a) (hs : Steps t rs w a u) : Sound k u := by
  have hcalls : ∀ x ∈ u.calls, (schemeFromPacket x.pkt).Sound k x.pkt.totalChunks := by
    intro x hx
    obtain ⟨y, hy, -, hpkt⟩ | ⟨routed, rfl, -⟩ := hs.mem_calls hx
    · exact hpkt ▸ h.calls y hy
    · exact hclaims x.pkt rfl
  refine ⟨fun st hst => ?_, hcalls⟩
  have hset : ∀ {ref : Nat} {s : State}, s.Sound k → st ∈ w.objects.set ref s → st.Sound k := by
    intro ref s hsound hst
    rcases List.mem_or_eq_of_mem_set hst with hst | rfl
    · exact h.objects st hst
    · exact hsound
  cases hs with
  | @created pkt routed =>
    rcases List.mem_append.mp hst with hst | hst
    · exact h.objects st hst
    · rw [List.mem_singleton.mp hst]
      exact ⟨hclaims pkt rfl, fun _ hsa => nomatch hsa⟩
  | @connected pkt =>
    rcases List.mem_append.mp hst with hst | hst
    · exact h.objects st hst
    · rw [List.mem_singleton.mp hst]
      have hpkt := hclaims pkt rfl
      refine ⟨hpkt, fun sa hsa => ?_⟩
      rw [newDirectState] at hsa
      split at hsa
      · cases hsa
        exact hpkt.coded
      · cases hsa
  | processed hx _ hobj hok => exact hset ((h.object hobj).ingest (h.call hx) hok) hst
  | chunked _ _ hobj hok => exact hset ((h.object hobj).processChunk hok) hst
  | _ => exact h.objects st hst

theorem mem_getD_bind {β : Type} {o : Option β} {ref : β → Nat} {f : β → State → List Reserve} {x : Reserve}
    (h : x ∈ (o.bind fun y => w.objects[ref y]?.map (f y)).getD []) :
    ∃ y st, o = some y ∧ w.objects[ref y]? = some st ∧ x ∈ f y st := by
  cases hy : o with
  | none =>
    rw [hy] at h
    cases h
  | some y =>
    rw [hy, Option.bind_some] at h
    cases hst : w.objects[ref y]? with
    | none =>
      rw [hst] at h
      cases h
    | some st =>
      rw [hst] at h
      exact ⟨y, st, rfl, hst, h⟩

theorem Sound.reserves (h : Sound k w) (a : Action) : ∀ x ∈ w.reserves t a, x.Fits k := by
  intro x hx
  cases a with
  | process c =>
    obtain ⟨y, st, hy, hst, hx⟩ := mem_getD_bind hx
    split at hx
    · exact (h.object hst).fits (h.call hy) x hx
    · cases hx
  | chunk c pkt =>
    obtain ⟨y, st, -, hst, hx⟩ := mem_getD_bind hx
    split at hx
    · cases hsa : st.stream with
      | none =>
        rw [hsa] at hx
        cases hx
      | some sa =>
        rw [hsa] at hx
        exact StreamAssembler.fits ((h.object hst).stream sa hsa) x hx
    · cases hx
  | finish c =>
    obtain ⟨y, st, -, hst, hx⟩ := mem_getD_bind hx
    split at hx
    · next hdone =>
      obtain ⟨-, hcomplete, hnone⟩ := hdone
      rw [State.isTransferComplete, Option.isNone_iff_eq_none.mp hnone] at hcomplete
      exact fits_complete (h.object hst).scheme hcomplete x hx
    · cases hx
  | _ => cases hx

/-- In every run in which packets claim what an encoder can have made, every Reed-Solomon reassembler has a length
    that can be sliced to and shard counts that are at most 65536 and do not wrap around, and what is reserved before
    a shard is opened is at most a multiple of the fragments that have arrived. --/
theorem numbers_in_range {acts : List Action} (hrun : exec (step t rs) new acts = some w)
    (hclaims : ∀ a ∈ acts, Claims k a) :
    ∀ x ∈ outputs (step t rs) (Receiver.reserves t) new acts,
      (∀ r ∈ x.coded, 0 ≤ r.originalLen ∧ r.dataShards + r.parityShards ≤ 65536 ∧
        r.total.toNat = r.dataShards + r.parityShards) ∧
        x.slots ≤ (k + 1) * x.received := by
  have hall : Sound k w ∧ ∀ x ∈ [] ++ outputs (step t rs) (Receiver.reserves t) new acts, x.Fits k := by
    refine outputs_keep_along (C := fun _ a => Claims k a) (P := fun w (l : List Reserve) => Sound k w ∧
      ∀ x ∈ l, x.Fits k) ?_
      ⟨sound_new, nofun⟩ (Along.of_forall fun a ha _ => hclaims a ha) hrun
    rintro w a u l hclaim ⟨hsound, hl⟩ hu
    refine ⟨hsound.step hclaim (step_cases hu), fun x hx => ?_⟩
    exact (List.mem_append.mp hx).elim (hl x) (hsound.reserves a x)
  intro x hx
  have hfits := hall.2 x hx
  exact ⟨fun r hr => ⟨(hfits.coded r hr).originalLen, (hfits.coded r hr).few, (hfits.coded r hr).total⟩, hfits.slots⟩

end Receiver

namespace Sample

/-- The length to slice to is not looked at: a negative one brings the process down. --/
def slicing : ReedSolomon :=
  { copies with join := fun d p shards n =>
      if n < 0 then .error (.panic "slice bounds out of range") else copies.join d p shards n }

/-- The first of two shards, sealed to the receiver, and the same shard of a transfer that claims a
    length above all others. --/
def claimed (originalLen : UInt64) : Packet :=
  { (packetOf transferID scheme "" [] (shard 0)) with originalLen, hybridSealed := true }

/-- One fragment of a transfer that claims as many parity shards as the field can say. --/
def crowded : Packet := { id := transferID, dataShards := 1, parityShards := 4294967295, payload := [0] }

def arrives (pkt : Packet) : List Action := [.forward pkt false, .process 0]

def reservedFor (pkt : Packet) : List Reserve :=
  outputs (Receiver.step (node 1 1 1048576 none) slicing) (Receiver.reserves (node 1 1 1048576 none)) .new (arrives pkt)

end Sample

namespace Receiver
open Sample

theorem numbers_in_range_shard :
    ∃ w, exec (step (node 1 1 1048576 none) slicing) new (arrives (claimed 3)) = some w ∧ w.down = false ∧
      (reservedFor (claimed 3)).map (fun x => (x.slots, x.received)) = [(2, 1)] ∧
      ∀ x ∈ reservedFor (claimed 3), (∀ r ∈ x.coded, 0 ≤ r.originalLen ∧ r.dataShards + r.parityShards ≤ 65536 ∧
        r.total.toNat = r.dataShards + r.parityShards) ∧ x.slots ≤ 2 * x.received := by
  obtain ⟨w, hrun, hup⟩ := Option.map_eq_some_iff.mp (show
    (exec (step (node 1 1 1048576 none) slicing) new (arrives (claimed 3))).map (·.down) = some false by decide +kernel)
  exact ⟨w, hrun, hup, by decide +kernel, numbers_in_range (k := 1) hrun (by decide)⟩

/-- Anybody who has the public key of the receiver makes it slice to a negative length, and a packet without
    content makes it reserve more than four thousand million places for one fragment, while the count of the shards
    wraps around to none. --/
theorem numbers_exceed :
    (∃ w, exec (step (node 1 1 1048576 none) slicing) new (arrives (claimed 18446744073709551615)) =
      some w ∧ w.down = true ∧
      (reservedFor (claimed 18446744073709551615)).map (fun x => x.coded.map (·.originalLen)) = [some (-1)]) ∧
      ∃ w, exec (step (node 1 1 1048576 none) slicing) new (arrives crowded) = some w ∧
        (reservedFor crowded).map (fun x => (x.slots, x.received, x.coded.map (·.total))) =
          [(4294967296, 1, some 0)] := by
  obtain ⟨w, hrun, hdown⟩ := Option.map_eq_some_iff.mp (show
    (exec (step (node 1 1 1048576 none) slicing) new (arrives (claimed 18446744073709551615))).map
      (·.down) = some true by
      decide +kernel)
  obtain ⟨v, hrun', -⟩ := Option.map_eq_some_iff.mp (show
    (exec (step (node 1 1 1048576 none) slicing) new (arrives crowded)).map (·.down) = some false by decide +kernel)
  exact ⟨⟨w, hrun, hdown, by decide +kernel⟩, v, hrun', by decide +kernel⟩

end Receiver
end SyncSwarm.Transfer
