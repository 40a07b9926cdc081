import SyncSwarm.Lib.System
import SyncSwarm.Theorems.Transfer.Stream

/-! What the sink of a stream has when the stream is acknowledged, and what the assembler holds meanwhile. -/

namespace SyncSwarm.Transfer
open Lib Protocol Fragment List GoMap

variable {t : Config} {rs : ReedSolomon} {init pkt : Packet} {pkts : List Packet} {i : UInt32} {x : StreamBlock}
  {sa sa' : StreamAssembler} {datas : List Bytes}

/-! ### Blocks of any packets -/

/-- A block as some of the packets make it. --/
inductive Gathered (pkts : List Packet) (i : UInt32) : StreamBlock → Prop where
  | fresh {pkt : Packet} : pkt ∈ pkts → pkt.blockIndex = i → Gathered pkts i (newStreamBlock pkt)
  | record {pkt : Packet} {x : StreamBlock} : Gathered pkts i x → pkt ∈ pkts → pkt.blockIndex = i →
    Gathered pkts i { x with toBuffers := x.toBuffers.record pkt }

variable {more : List Packet}

theorem Gathered.mono (h : Gathered pkts i x) (hsub : pkts ⊆ more) : Gathered more i x := by
  induction h with
  | fresh hmem hindex => exact .fresh (hsub hmem) hindex
  | record _ hmem hindex ih => exact .record ih (hsub hmem) hindex

theorem Gathered.not_ready (h : Gathered pkts i x) : x.ready = false := by
  induction h with
  | fresh => rfl
  | record _ _ _ ih => exact ih

/-- The data are what the packets give for the block, as the assembler of the stream reconstructs it. --/
def Rebuilt (t : Config) (rs : ReedSolomon) (init : Packet) (pkts : List Packet) (i : UInt32) (data : Bytes)
    (final : Bool) : Prop :=
  ∃ x, Gathered pkts i x ∧ x.final = final ∧ (newStreamAssembler init).reconstructBlock t rs x = .ok data

theorem Rebuilt.mono {data : Bytes} {final : Bool} (h : Rebuilt t rs init pkts i data final) (hsub : pkts ⊆ more) :
    Rebuilt t rs init more i data final :=
  let ⟨x, hx, hfinal, hdata⟩ := h
  ⟨x, hx.mono hsub, hfinal, hdata⟩

inductive BlockOf (t : Config) (rs : ReedSolomon) (init : Packet) (pkts : List Packet) (i : UInt32) (x : StreamBlock) :
    Prop where
  | filling : Gathered pkts i x → BlockOf t rs init pkts i x
  | ready : x.ready = true → Rebuilt t rs init pkts i x.data x.final → BlockOf t rs init pkts i x

theorem BlockOf.mono (h : BlockOf t rs init pkts i x) (hsub : pkts ⊆ more) : BlockOf t rs init more i x := by
  cases h with
  | filling hx => exact .filling (hx.mono hsub)
  | ready hready hx => exact .ready hready (hx.mono hsub)

theorem BlockOf.rebuilt (h : BlockOf t rs init pkts i x) (hready : x.ready = true) :
    Rebuilt t rs init pkts i x.data x.final := by
  cases h with
  | filling hx => exact absurd (hx.not_ready.symm.trans hready) (by decide)
  | ready _ hx => exact hx

/-- The content of the stream: its blocks in order, up to the first final one. --/
structure Content (t : Config) (rs : ReedSolomon) (init : Packet) (pkts : List Packet) (datas : List Bytes) : Prop where
  ne_nil : datas ≠ []
  block : ∀ i data, datas[i]? = some data → Rebuilt t rs init pkts (UInt32.ofNat i) data (decide (i + 1 = datas.length))

/-! ### The assembler -/

def StreamAssembler.Like (sa : StreamAssembler) (t : Config) (rs : ReedSolomon) (init : Packet) : Prop :=
  ∀ x, sa.reconstructBlock t rs x = (newStreamAssembler init).reconstructBlock t rs x

structure Writing (t : Config) (rs : ReedSolomon) (init : Packet) (pkts : List Packet) (sa : StreamAssembler)
    (datas : List Bytes) : Prop where
  like : sa.Like t rs init
  going : sa.done = false
  next : sa.nextFlush = UInt32.ofNat datas.length
  events : sa.events = datas.map .write
  written : ∀ i data, datas[i]? = some data → Rebuilt t rs init pkts (UInt32.ofNat i) data false
  blocks : ∀ i x, sa.blocks.get? i = some x → BlockOf t rs init pkts i x

structure Written (t : Config) (rs : ReedSolomon) (init : Packet) (pkts : List Packet) (sa : StreamAssembler) :
    Prop where
  done : sa.done = true
  events : ∃ datas handed ack, Content t rs init pkts datas ∧ sa.events = datas.map .write ++ [.finish handed ack] ∧
    (t.hasSink = true → handed = none)

inductive Flushed (t : Config) (rs : ReedSolomon) (init : Packet) (pkts : List Packet) (sa : StreamAssembler) :
    Prop where
  | writing {datas : List Bytes} : Writing t rs init pkts sa datas → Flushed t rs init pkts sa
  | written : Written t rs init pkts sa → Flushed t rs init pkts sa

theorem writing_new (t : Config) (rs : ReedSolomon) (init : Packet) :
    Writing t rs init [] (newStreamAssembler init) [] where
  like _ := rfl
  going := rfl
  next := rfl
  events := rfl
  written _ _ h := nomatch h
  blocks i _ h := nomatch (get?_empty i).symm.trans h

theorem Flushed.mono (h : Flushed t rs init pkts sa) (hsub : pkts ⊆ more) : Flushed t rs init more sa := by
  cases h with
  | writing hw =>
    exact .writing { hw with
      written := fun i data hi => (hw.written i data hi).mono hsub
      blocks := fun i x hx => (hw.blocks i x hx).mono hsub }
  | written hw =>
    obtain ⟨datas, handed, ack, hcontent, hevents⟩ := hw.events
    exact .written
      ⟨hw.done, datas, handed, ack, ⟨hcontent.ne_nil, fun i data hi => (hcontent.block i data hi).mono hsub⟩, hevents⟩

theorem Writing.writeNext (h : Writing t rs init pkts sa datas) (hx : sa.blocks.get? sa.nextFlush = some x)
    (hready : x.ready = true) (hfinal : x.final = false) :
    Writing t rs init pkts (sa.writeNext x) (datas ++ [x.data]) where
  like := h.like
  going := h.going
  next := by
    rw [StreamAssembler.writeNext, h.next, length_append, UInt32.ofNat_add]
    rfl
  events := by
    rw [StreamAssembler.writeNext, h.events, map_append]
    rfl
  written i data hi := by
    rcases getElem?_append_single hi with hold | ⟨rfl, rfl⟩
    · exact h.written i data hold
    · exact hfinal ▸ h.next ▸ (h.blocks _ x hx).rebuilt hready
  blocks i y hy := by
    by_cases hi : i = sa.nextFlush
    · rw [hi, StreamAssembler.writeNext, get?_delete_self] at hy
      cases hy
    · exact h.blocks i y ((get?_delete_ne _ hi).symm.trans hy)

theorem finish_events (sa : StreamAssembler) (t : Config) :
    ∃ handed ack, (sa.finish t).events = sa.events ++ [.finish handed ack] ∧ (t.hasSink = true → handed = none) :=
  ⟨_, _, rfl, fun hsink => if_pos (.inl hsink)⟩

theorem Writing.finish (h : Writing t rs init pkts sa datas) (hx : sa.blocks.get? sa.nextFlush = some x)
    (hready : x.ready = true) (hfinal : x.final = true) : Written t rs init pkts ((sa.writeNext x).finish t) where
  done := rfl
  events := by
    obtain ⟨handed, ack, hevents, hnone⟩ := finish_events (sa.writeNext x) t
    refine ⟨datas ++ [x.data], handed, ack, ⟨by simp, fun i data hi => ?_⟩, ?_, hnone⟩
    · rw [length_append, length_singleton]
      rcases getElem?_append_single hi with hold | ⟨rfl, rfl⟩
      · have hlt : i < datas.length := lt_of_getElem? hold
        rw [decide_eq_false (by omega)]
        exact h.written i data hold
      · rw [decide_eq_true rfl, ← hfinal, ← h.next]
        exact (h.blocks _ x hx).rebuilt hready
    · rw [hevents, StreamAssembler.writeNext, h.events, map_append]
      rfl

theorem flushLoop_flushed {rounds : Nat} (h : Writing t rs init pkts sa datas) :
    Flushed t rs init pkts (StreamAssembler.flushLoop t rounds sa) := by
  induction rounds generalizing sa datas with
  | zero => exact .writing h
  | succ rounds ih =>
    rw [StreamAssembler.flushLoop]
    split
    · exact .writing h
    next x hx =>
      split
      next hready =>
        split
        next hfinal => exact .written (h.finish hx hready hfinal)
        next hfinal => exact ih (h.writeNext hx hready (Bool.eq_false_iff.mpr hfinal))
      · exact .writing h

theorem absorb_block {x' : StreamBlock} (hlike : sa.Like t rs init) (hx : Gathered pkts i x) (hmem : pkt ∈ pkts)
    (hindex : pkt.blockIndex = i) (h : sa.absorb t rs x pkt = .ok x') : BlockOf t rs init pkts i x' := by
  have hrec := hx.record hmem hindex
  rw [StreamAssembler.absorb] at h
  split at h
  · split at h
    next data hdata =>
      cases h
      exact .ready rfl ⟨_, hrec, rfl, (hlike _).symm.trans hdata⟩
    next =>
      cases h
      exact .filling hrec
    next => cases h
  · cases h
    exact .filling hrec

theorem Flushed.add (h : Flushed t rs init pkts sa) (hadd : sa.add t rs pkt = .ok sa') :
    Flushed t rs init (pkts ++ [pkt]) sa' := by
  have hsub : pkts ⊆ pkts ++ [pkt] := subset_append_left _ _
  have hmem : pkt ∈ pkts ++ [pkt] := mem_append_right _ (mem_singleton_self pkt)
  rw [StreamAssembler.add] at hadd
  split at hadd
  · cases hadd
    exact h.mono hsub
  next hgoing =>
    dsimp only at hadd
    split at hadd
    · cases hadd
      exact h.mono hsub
    next hready =>
      obtain ⟨x', hx', rfl⟩ := map_eq_ok.mp hadd
      cases h.mono hsub with
      | written hw => exact absurd hw.done hgoing
      | @writing datas hw =>
        -- The block is one that was there, or a fresh one that the packet starts.
        have hx : Gathered (pkts ++ [pkt]) pkt.blockIndex
            ((sa.blocks.get? pkt.blockIndex).getD (newStreamBlock pkt)) := by
          cases hget : sa.blocks.get? pkt.blockIndex with
          | none => exact .fresh hmem rfl
          | some y =>
            cases hw.blocks _ y hget with
            | filling hy => exact hy
            | ready hy _ =>
              rw [hget] at hready
              exact absurd hy hready
        refine flushLoop_flushed (t := t) { hw with blocks := fun i y hy => ?_ }
        by_cases hi : i = pkt.blockIndex
        · rw [hi, get?_set_self] at hy
          cases hy
          exact hi ▸ absorb_block hw.like hx hmem rfl hx'
        · exact hw.blocks i y ((get?_set_ne _ _ hi).symm.trans hy)

theorem Flushed.addAll (h : Flushed t rs init pkts sa) (hadd : sa.addAll t rs more = .ok sa') :
    Flushed t rs init (pkts ++ more) sa' := by
  induction more generalizing sa pkts with
  | nil =>
    cases hadd
    rwa [append_nil]
  | cons pkt more ih =>
    rw [StreamAssembler.addAll, foldlM_cons] at hadd
    obtain ⟨sa₁, hone, hrest⟩ := bind_eq_ok.mp hadd
    rw [append_cons]
    exact ih (h.add hone) hrest

/-! ### The sink -/

namespace Sink
variable {sink : Sink} {calls : Nat} {es : List StreamEvent}

/-- The sink takes all that it is given and does not fail. --/
def Reliable (sink : Sink) : Prop := ∀ call n, n ≤ (sink call n).taken ∧ (sink call n).failed = false

theorem accepted_writes (h : sink.Reliable) (datas : List Bytes) :
    sink.accepted calls (datas.map .write ++ es) = datas.flatten ++ sink.accepted (calls + datas.length) es := by
  induction datas generalizing calls with
  | nil => rfl
  | cons data datas ih =>
    rw [map_cons, cons_append, accepted, ih, take_of_length_le (h calls data.length).1, flatten_cons,
      append_assoc, length_cons, Nat.add_right_comm, Nat.add_assoc calls]

theorem closed_writes (datas : List Bytes) :
    sink.closed calls (datas.map .write ++ es) = sink.closed (calls + datas.length) es := by
  induction datas generalizing calls with
  | nil => rfl
  | cons data datas ih =>
    rw [map_cons, cons_append, closed, ih, length_cons, Nat.add_right_comm, Nat.add_assoc calls]

end Sink

/-- A stream whose sink never takes less than it is given and never fails is acknowledged only when the sink was given
    the whole content in order, has accepted all of it and was closed. --/
theorem acknowledged_flushed {sink : Sink} (hsink : t.hasSink = true) (hreliable : sink.Reliable)
    (hadd : (newStreamAssembler init).addAll t rs pkts = .ok sa) {handed : Option Bytes} {ack : Ack}
    (hack : .finish handed (some ack) ∈ sa.events) :
    ∃ datas, Content t rs init pkts datas ∧ sa.events = datas.map .write ++ [.finish none (some ack)] ∧
      sink.accepted 0 sa.events = datas.flatten ∧ sink.closed 0 sa.events = true := by
  have hflushed := (Flushed.writing (writing_new t rs init)).addAll hadd
  cases hflushed with
  | writing hw =>
    rw [hw.events] at hack
    obtain ⟨data, -, hdata⟩ := mem_map.mp hack
    cases hdata
  | written hw =>
    obtain ⟨datas, handed', ack', hcontent, hevents, hnone⟩ := hw.events
    obtain ⟨rfl, rfl⟩ : handed = handed' ∧ some ack = ack' := by
      rw [hevents, mem_append, mem_singleton] at hack
      rcases hack with hwrite | hfinish
      · obtain ⟨data, -, hdata⟩ := mem_map.mp hwrite
        cases hdata
      · exact StreamEvent.finish.inj hfinish
    refine ⟨datas, hcontent, hnone hsink ▸ hevents, ?_, ?_⟩
    · rw [hevents, Sink.accepted_writes hreliable]
      exact append_nil _
    · rw [hevents, Sink.closed_writes, Sink.closed, (hreliable _ 0).2]
      rfl

namespace Sample

def sinker : Config := { streamer 2 with hasSink := true }

def steadySink : Sink := fun _ n => ⟨n, false⟩

def fullSink : Sink := fun call n => if call = 0 then ⟨n, false⟩ else ⟨min n 1, true⟩

def swapped : List Packet :=
  (packetsOf transferID streamScheme "sender" [] 0
    (sinker.streamBlocks copies [1, 2, 3, 4] transferID (some labelSealer) 0).1).reverse

def sinkEvents : List StreamEvent :=
  [.write [1, 2], .write [3, 4], .finish none (some (.direct "sender" transferID))]

theorem swapped_events :
    ((newStreamAssembler streamInit).addAll sinker copies swapped).toOption.map (·.events) = some sinkEvents := by
  decide +kernel

end Sample

open Sample in
theorem acknowledged_flushed_swapped :
    ∃ sa datas, (newStreamAssembler streamInit).addAll sinker copies swapped = .ok sa ∧
    Content sinker copies streamInit swapped datas ∧ steadySink.accepted 0 sa.events = datas.flatten ∧
    steadySink.closed 0 sa.events = true := by
  obtain ⟨sa, hsa, hevents⟩ := Option.map_eq_some_iff.mp swapped_events
  have hadd := toOption_eq_some.mp hsa
  obtain ⟨datas, hcontent, -, haccepted, hclosed⟩ := acknowledged_flushed rfl
    (show steadySink.Reliable from fun _ n => ⟨Nat.le_refl n, rfl⟩) hadd
      (hevents ▸ by decide : .finish none (some (.direct "sender" transferID)) ∈ sa.events)
  exact ⟨sa, datas, hadd, hcontent, haccepted, hclosed⟩

open Sample in
/-- The sink takes only one byte of the second block, and fails; then `Close` fails. The stream is acknowledged all the
    same. --/
theorem acknowledged_unflushed : ∃ sa, (newStreamAssembler streamInit).addAll sinker copies swapped = .ok sa ∧
    .finish none (some (.direct "sender" transferID)) ∈ sa.events ∧ sa.output = [1, 2, 3, 4] ∧
    fullSink.accepted 0 sa.events = [1, 2, 3] ∧ fullSink.closed 0 sa.events = false := by
  obtain ⟨sa, hsa, hevents⟩ := Option.map_eq_some_iff.mp swapped_events
  refine ⟨sa, toOption_eq_some.mp hsa, ?_⟩
  rw [StreamAssembler.output, hevents]
  decide

/-! ### Blocks in memory -/

namespace StreamAssembler

def Windowed (sa : StreamAssembler) (top : Nat) : Prop :=
  ∀ i x, sa.blocks.get? i = some x → sa.nextFlush ≤ i ∧ i.toNat < top

/-- A packet is added; no step for one that brings the process down. --/
def step (t : Config) (rs : ReedSolomon) (sa : StreamAssembler) (pkt : Packet) : Option StreamAssembler :=
  (sa.add t rs pkt).toOption

/-- The packet is not one of a block that was written. --/
def Current (sa : StreamAssembler) (pkt : Packet) : Prop := sa.done = false → sa.nextFlush ≤ pkt.blockIndex

instance (sa : StreamAssembler) (pkt : Packet) : Decidable (sa.Current pkt) := inferInstanceAs (Decidable (_ → _))

variable {top : Nat}

theorem Windowed.writeNext (h : sa.Windowed top) (x : StreamBlock) : (sa.writeNext x).Windowed top := by
  intro i y hy
  by_cases hi : i = sa.nextFlush
  · rw [hi, StreamAssembler.writeNext, get?_delete_self] at hy
    cases hy
  · obtain ⟨hle, hlt⟩ := h i y ((get?_delete_ne _ hi).symm.trans hy)
    have hne : sa.nextFlush.toNat ≠ i.toNat := fun heq => hi (UInt32.toNat_inj.mp heq.symm)
    refine ⟨UInt32.le_iff_toNat_le.mpr ?_, hlt⟩
    rw [UInt32.le_iff_toNat_le] at hle
    simp only [StreamAssembler.writeNext, UInt32.toNat_add, UInt32.toNat_one]
    omega

theorem Windowed.flushLoop (h : sa.Windowed top) (rounds : Nat) : (flushLoop t rounds sa).Windowed top := by
  induction rounds generalizing sa with
  | zero => exact h
  | succ rounds ih =>
    rw [StreamAssembler.flushLoop]
    split
    · exact h
    next b _ =>
      split
      · split
        · exact h.writeNext b
        · exact ih (h.writeNext b)
      · exact h

theorem Windowed.step (h : sa.Windowed top) (hpkt : sa.Current pkt) (htop : pkt.blockIndex.toNat < top)
    (hstep : sa.step t rs pkt = some sa') : sa'.Windowed top := by
  have hadd := toOption_eq_some.mp hstep
  rw [add] at hadd
  split at hadd
  · cases hadd
    exact h
  next hgoing =>
    dsimp only at hadd
    split at hadd
    · cases hadd
      exact h
    · obtain ⟨y, -, rfl⟩ := map_eq_ok.mp hadd
      refine Windowed.flushLoop (fun i z hz => ?_) _
      by_cases hi : i = pkt.blockIndex
      · rw [hi]
        exact ⟨hpkt (Bool.eq_false_iff.mpr hgoing), htop⟩
      · exact h i z ((get?_set_ne _ _ hi).symm.trans hz)

theorem Windowed.len_le (h : sa.Windowed top) : sa.blocks.len ≤ top - sa.nextFlush.toNat := by
  let held := (range' sa.nextFlush.toNat (top - sa.nextFlush.toNat)).map UInt32.ofNat
  have hmem : ∀ i x, sa.blocks.get? i = some x → true = decide (i ∈ held) := by
    intro i x hx
    obtain ⟨hle, hlt⟩ := h i x hx
    have hle := UInt32.le_iff_toNat_le.mp hle
    exact (decide_eq_true (mem_map.mpr ⟨i.toNat, mem_range'_1.mpr ⟨hle, by omega⟩, UInt32.ofNat_toNat⟩)).symm
  rw [len_eq_count, count_congr hmem]
  exact (count_mem_le _ held).trans (by simp [held])

end StreamAssembler

open StreamAssembler in
/-- While no packet comes for a block that was written, only blocks from `nextFlush` on are held. There are no more of
    them than blocks up to the last that came. --/
theorem held_in_window (hrun : exec (step t rs) (newStreamAssembler init) pkts = some sa)
    (hcurrent : Along (step t rs) Current (newStreamAssembler init) pkts) :
    (∀ i x, sa.blocks.get? i = some x → sa.nextFlush ≤ i) ∧
      ∀ top, (∀ pkt ∈ pkts, pkt.blockIndex.toNat < top) → sa.blocks.len ≤ top - sa.nextFlush.toNat := by
  have hwindow : ∀ top, (∀ pkt ∈ pkts, pkt.blockIndex.toNat < top) → sa.Windowed top := by
    intro top htop
    have hnew : (newStreamAssembler init).Windowed top := fun i x hx => nomatch (get?_empty i).symm.trans hx
    exact exec_keeps_along (P := (·.Windowed top)) (fun _ _ _ hpkt h hstep => h.step hpkt.1 hpkt.2 hstep) hnew
      (hcurrent.and (.of_forall fun pkt hpkt _ => htop pkt hpkt)) hrun
  exact ⟨fun i x hx => (hwindow 4294967296 (fun pkt _ => pkt.blockIndex.toNat_lt) i x hx).1, fun top htop =>
    (hwindow top htop).len_le⟩

namespace Sample

def inOrder : List Packet :=
  packetsOf transferID streamScheme "sender" [] 0
    ((streamer 1).streamBlocks copies [1, 2, 3] transferID (some labelSealer) 0).1

end Sample

open Sample StreamAssembler in
theorem held_in_window_second :
    ∃ sa, exec (step (streamer 2) copies) (newStreamAssembler streamInit) (streamParity.take 1) = some sa ∧
    sa.blocks.len = 1 ∧ sa.blocks.len ≤ 2 - sa.nextFlush.toNat := by
  obtain ⟨sa, hsa, hlen⟩ :=
    Option.map_eq_some_iff.mp (show (exec (step (streamer 2) copies) (newStreamAssembler streamInit)
    (streamParity.take 1)).map (·.blocks.len) = some 1 by decide +kernel)
  exact ⟨sa, hsa, hlen, (held_in_window hsa (by decide +kernel)).2 2 (by decide)⟩

open Sample StreamAssembler in
/-- The packets come in order and once. The second shard of each block comes after the block was
    written, and puts it back. --/
theorem written_blocks_held :
    ∃ sa, exec (step (streamer 1) copies) (newStreamAssembler streamInit) (inOrder.take 4) = some sa ∧
    sa.nextFlush = 2 ∧ sa.blocks.len = 2 ∧ (sa.blocks.get? 0).isSome ∧ (sa.blocks.get? 1).isSome := by
  obtain ⟨sa, hsa, hheld⟩ :=
    Option.map_eq_some_iff.mp (show (exec (step (streamer 1) copies) (newStreamAssembler streamInit)
    (inOrder.take 4)).map
      (fun sa => (sa.nextFlush, sa.blocks.len, (sa.blocks.get? 0).isSome, (sa.blocks.get? 1).isSome)) =
      some (2, 2, true, true) by decide +kernel)
  simp only [Prod.mk.injEq] at hheld
  exact ⟨sa, hsa, hheld⟩

end SyncSwarm.Transfer
