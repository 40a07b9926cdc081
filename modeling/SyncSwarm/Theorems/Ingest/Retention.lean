import SyncSwarm.Theorems.Transfer.RoundTrip
import SyncSwarm.Transfer.Retention

/-! Nothing but the end of the transfer removes a state that was made for forwarded fragments, unless it is one
    of a resumable stream. -/

namespace SyncSwarm.Transfer.Retainer
open Lib Protocol Fragment List Option GoMap

variable {t : Config} {rs : ReedSolomon} {w u : Retainer} {a : Action} {pkt : Packet} {routed : Bool} {id : TransferID}
  {r : RetainedState} {k : Nat}

structure Swept (now : Nat) (r : RetainedState) : Prop where
  resumable : r.isResumable
  unfinished : ∀ sa ∈ r.state.stream, sa.done = false
  past : r.lastActivity ≤ now

structure Inv (w : Retainer) : Prop where
  swept : ∀ id r, w.transfers.get? id = some r → Swept w.now r
  bounded : w.transfers.len ≤ maxRetainedStreams + w.begun

/-- Only fragments of resumable streams come, and of no more than `k` new ones until the cap is enforced. --/
def Resumable (k : Nat) (w : Retainer) : Action → Prop
  | .forward pkt _ => pkt.streaming ∧ pkt.resumable ∧ ((w.transfers.get? pkt.id).isSome ∨ w.begun < k)
  | _ => True

theorem inv_ingest (h : w.Inv) (hstream : pkt.streaming) (hres : pkt.resumable)
    (hstep : w.ingestForwardedFragment t rs pkt routed = some u) : u.Inv := by
  simp only [ingestForwardedFragment, State.ingest, if_pos hstream] at hstep
  generalize hr : (w.transfers.get? pkt.id).getD ⟨newForwardedState pkt routed, w.now⟩ = r at hstep
  cases hadd : (r.state.stream.getD (newStreamAssembler pkt)).add t rs pkt with
  | error e => simp [hadd, Except.map] at hstep
  | ok sa =>
    simp only [hadd, Except.map] at hstep
    cases hdone : sa.done with
    | true =>
      simp only [hdone, if_true] at hstep
      cases hstep
      refine ⟨fun id r' hr' => ?_, ?_⟩
      · by_cases hid : id = pkt.id
        · rw [hid, get?_delete_self] at hr'
          cases hr'
        · exact h.swept id r' (get?_delete_ne _ hid ▸ hr')
      · have hlen := len_delete_le w.transfers pkt.id
        have hbound := h.bounded
        dsimp only
        split <;> omega
    | false =>
      simp only [hdone, Bool.false_eq_true, if_false] at hstep
      cases hstep
      have hscheme : r.state.scheme.resumable := by
        cases hknown : w.transfers.get? pkt.id with
        | none =>
          rw [← hr, hknown]
          exact hres
        | some r' =>
          rw [← hr, hknown]
          exact (Bool.and_eq_true_iff.mp (h.swept _ _ hknown).resumable).1
      refine ⟨fun id r' hr' => ?_, ?_⟩
      · rw [get?_set] at hr'
        split at hr'
        · cases hr'
          exact ⟨Bool.and_eq_true_iff.mpr ⟨hscheme, rfl⟩, fun _ hsa => some.inj hsa ▸ hdone, Nat.le_refl _⟩
        · exact h.swept id r' hr'
      · have hbound := h.bounded
        cases hknown : w.transfers.get? pkt.id with
        | none => simpa [hknown, len_set hknown, ← Nat.add_assoc] using hbound
        | some r' =>
          have hsome : (w.transfers.get? pkt.id).isSome := hknown ▸ rfl
          simpa [hknown, len_set_of_some hsome] using hbound

theorem len_cap (h : w.Inv) (range : Iteration TransferID RetainedState) :
    (w.enforceRetainedStreamCap range).transfers.len ≤ maxRetainedStreams := by
  rw [enforceRetainedStreamCap]
  generalize hretained : (range.order w.transfers).filter (fun e => e.2.isResumable) = retained
  generalize hsorted : sortSlice (fun a b => decide (a.2.lastActivity < b.2.lastActivity)) retained = sorted
  have hperm : sorted.Perm retained := hsorted ▸ perm_sortSlice _ _
  generalize hn : retained.length - maxRetainedStreams = n
  -- What is left is among those behind the ones that are dropped.
  have hsub : ∀ id ∈ (w.transfers.filter fun id _ => id ∉ (sorted.take n).map fun e => e.1).keys,
      id ∈ (sorted.drop n).map fun e => e.1 := by
    intro id hid
    obtain ⟨r, hr⟩ := isSome_iff_exists.mp (mem_keys.mp hid)
    rw [get?_filter, Option.filter_eq_some_iff, decide_eq_true_eq] at hr
    have hmem : (id, r) ∈ sorted := by
      rw [hperm.mem_iff, ← hretained, mem_filter, (range.perm _).mem_iff, mem_entries]
      exact ⟨hr.1, (h.swept id r hr.1).resumable⟩
    rw [← take_append_drop n sorted, mem_append] at hmem
    exact mem_map_of_mem (hmem.resolve_left fun htake => hr.2 (mem_map_of_mem htake))
  have hle := (subperm_of_subset (AList.keys_nodup _) hsub).length_le
  rw [length_map, length_drop, hperm.length_eq] at hle
  exact Nat.le_trans hle (by omega)

theorem step_inv (h : w.Inv) (hres : w.Resumable k a) (hstep : step t rs w a = some u) : u.Inv := by
  cases a with
  | forward pkt routed => exact inv_ingest h hres.1 hres.2.1 hstep
  | tick elapsed =>
    cases hstep
    exact ⟨fun id r hr =>
      ⟨(h.swept id r hr).resumable, (h.swept id r hr).unfinished,
        Nat.le_add_right_of_le (h.swept id r hr).past⟩, h.bounded⟩
  | sweep =>
    cases hstep
    refine ⟨fun id r hr => ?_, Nat.le_trans (len_filter_le _ _) h.bounded⟩
    rw [sweepResumableStreams, get?_filter] at hr
    exact h.swept id r (Option.filter_eq_some_iff.mp hr).1
  | cap range =>
    cases hstep
    refine ⟨fun id r hr => ?_, Nat.le_add_right_of_le (len_cap h range)⟩
    rw [enforceRetainedStreamCap, get?_filter] at hr
    exact h.swept id r (Option.filter_eq_some_iff.mp hr).1

theorem begun_le (h : w.begun ≤ k) (hres : w.Resumable k a) (hstep : step t rs w a = some u) : u.begun ≤ k := by
  cases a with
  | tick | sweep =>
    cases hstep
    exact h
  | cap range =>
    cases hstep
    exact Nat.zero_le k
  | forward pkt routed =>
    have hbegun : (if (w.transfers.get? pkt.id).isSome then w.begun else w.begun + 1) ≤ k := by
      rcases hres.2.2 with hknown | hroom
      · rwa [if_pos hknown]
      · split <;> omega
    simp only [step, ingestForwardedFragment] at hstep
    split at hstep
    · cases hstep
    · cases hstep
      exact hbegun
    · cases hstep
      exact hbegun

/-- In every run in which only fragments of resumable streams come, and of no more than `k` new ones between two
    times that the cap is enforced, no more than `k` states beyond the cap are kept, and once the time has passed
    a sweep leaves none. --/
theorem retained_bounded {acts : List Action} (hres : Along (step t rs) (Resumable k) new acts)
    (hrun : exec (step t rs) new acts = some w) : w.transfers.len ≤ maxRetainedStreams + k ∧
    ∃ u, exec (step t rs) w [.tick resumableStreamTTL, .sweep] = some u ∧ u.transfers.len = 0 := by
  have hnew : new.Inv ∧ new.begun ≤ k := ⟨⟨fun id r hr => (nomatch hr), Nat.zero_le _⟩, Nat.zero_le k⟩
  have hinv : w.Inv ∧ w.begun ≤ k :=
    exec_keeps_along (P := fun w => w.Inv ∧ w.begun ≤ k)
      (fun _ _ _ hres h hstep => ⟨step_inv h.1 hres hstep, begun_le h.2 hres hstep⟩) hnew hres hrun
  refine ⟨Nat.le_trans hinv.1.bounded (Nat.add_le_add_left hinv.2 _), _, rfl, len_eq_length nodup_nil fun id => ?_⟩
  rw [sweepResumableStreams, get?_filter]
  simp only [not_mem_nil, iff_false, not_isSome_iff_eq_none, Option.filter_eq_none_iff]
  intro r hr
  have hr := hinv.1.swept id r hr
  obtain ⟨sa, hsa⟩ := isSome_iff_exists.mp (Bool.and_eq_true_iff.mp hr.resumable).2
  simp [hr.resumable, RetainedState.isIdle, hsa, hr.unfinished sa hsa, hr.past]

/-- A shard of one of many resumable streams. --/
def shard (stream : Nat) : Packet :=
  { id := FixedBytes.copy 32 (be32 (UInt32.ofNat stream)), totalChunks := 3, streaming := true, resumable := true,
    dataShards := 2, parityShards := 1 }

/-- Two streams begin, the cap is enforced, two more begin, and the first goes on. --/
def streams : List Action :=
  [.forward (shard 0) false, .forward (shard 1) false, .cap .inOrder, .tick 60, .forward (shard 2) false,
    .forward (shard 3) true, .forward (shard 0) false]

instance Resumable.decidable (k : Nat) (w : Retainer) : ∀ a, Decidable (Resumable k w a)
  | .forward _ _ => inferInstanceAs (Decidable (_ ∧ _ ∧ _))
  | .tick _ | .sweep | .cap _ => isTrue trivial

open Sample in
theorem retained_bounded_streams :
    ∃ w, exec (step (node 2 1 16 (some labelSealer)) copies) new streams = some w ∧
    w.transfers.len = 4 ∧ w.transfers.len ≤ maxRetainedStreams + 2 ∧ ∃ u,
      exec (step (node 2 1 16 (some labelSealer)) copies) w [.tick resumableStreamTTL, .sweep] = some u ∧
        u.transfers.len = 0 := by
  obtain ⟨w, hrun, hlen⟩ := map_eq_some_iff.mp (show
    (exec (step (node 2 1 16 (some labelSealer)) copies) new streams).map (·.transfers.len) = some 4 by decide +kernel)
  have hres : Along (step (node 2 1 16 (some labelSealer)) copies) (Resumable 2) new streams := by decide +kernel
  exact ⟨w, hrun, hlen, retained_bounded hres hrun⟩

namespace Flood

def packet (n : Nat) : Packet := { id := FixedBytes.copy 32 (be32 (UInt32.ofNat n)), totalChunks := 2 }

theorem ingest_packet (t : Config) (rs : ReedSolomon) (n : Nat) :
    ∃ st : State, (newForwardedState (packet n) false).ingest t rs (packet n) = .ok (st, .done) ∧
    st.scheme.resumable = false := ⟨_, rfl, rfl⟩

theorem packet_inj {a b : Nat} (ha : a < 4294967296) (hb : b < 4294967296) (h : (packet a).id = (packet b).id) :
    a = b := by
  have hread : ∀ n, u32 (packet n).id.val = UInt32.ofNat n := by
    intro n
    show u32 ((be32 _ ++ _).take 32) = _
    rw [take_append, length_be32, take_of_length_le (by simp), u32_be32]
  exact ofNat_inj ha hb ((hread a).symm.trans (h ▸ hread b))

structure Flooded (n : Nat) (w : Retainer) : Prop where
  known : ∀ id r, w.transfers.get? id = some r → r.state.scheme.resumable = false ∧ ∃ k < n, id = (packet k).id
  len : w.transfers.len = n

theorem exec_flood (t : Config) (rs : ReedSolomon) {n : Nat} (hn : n ≤ 4294967296) :
    ∃ w, exec (step t rs) new ((List.range n).map fun k => .forward (packet k) false) = some w ∧ Flooded n w := by
  induction n with
  | zero => exact ⟨new, rfl, fun id r hr => (nomatch hr), rfl⟩
  | succ n ih =>
    obtain ⟨w, hrun, hw⟩ := ih (by omega)
    obtain ⟨st, hst, hres⟩ := ingest_packet t rs n
    have hnone : w.transfers.get? (packet n).id = none := by
      refine eq_none_iff_forall_not_mem.mpr fun r hr => ?_
      obtain ⟨-, k, hk, heq⟩ := hw.known _ r hr
      exact absurd (packet_inj (by omega) (by omega) heq) (by omega)
    have hstep : step t rs w (.forward (packet n) false) =
        some ⟨w.transfers.set (packet n).id ⟨st, w.now⟩, w.now, w.begun + 1⟩ := by
      rw [step, ingestForwardedFragment, hnone]
      simp only [getD_none, hst]
      rfl
    rw [range_succ, map_append]
    refine ⟨_, exec_append.mpr ⟨w, hrun, exec_single.mpr hstep⟩, fun id r hr => ?_,
      (len_set hnone _).trans (congrArg (· + 1) hw.len)⟩
    rw [get?_set] at hr
    split at hr
    · next hid =>
      cases hr
      exact ⟨hres, n, Nat.lt_succ_self n, hid⟩
    · obtain ⟨hr, k, hk, hid⟩ := hw.known id r hr
      exact ⟨hr, k, Nat.lt_succ_of_lt hk, hid⟩

theorem step_flooded (t : Config) (rs : ReedSolomon) {n : Nat} (hw : Flooded n w)
    (hidle : ∀ pkt routed, a ≠ .forward pkt routed) :
    ∃ u, step t rs w a = some u ∧ Flooded n u := by
  cases a with
  | forward pkt routed => exact absurd rfl (hidle pkt routed)
  | tick elapsed => exact ⟨_, rfl, hw.known, hw.len⟩
  | sweep =>
    have hsame : w.sweepResumableStreams.transfers = w.transfers := by
      dsimp only [sweepResumableStreams]
      refine GoMap.filter_eq_self fun id r hr => ?_
      simp [RetainedState.isResumable, (hw.known id r hr).1]
    exact ⟨_, rfl, hsame ▸ hw.known, hsame ▸ hw.len⟩
  | cap range =>
    have hnone : (range.order w.transfers).filter (fun e => e.2.isResumable) = [] := by
      refine filter_eq_nil_iff.mpr fun e he => ?_
      simp [RetainedState.isResumable, (hw.known e.1 e.2 (mem_entries.mp ((range.perm _).subset he))).1]
    have hsame : (w.enforceRetainedStreamCap range).transfers = w.transfers := by
      dsimp only [enforceRetainedStreamCap]
      rw [hnone]
      refine GoMap.filter_eq_self fun id r hr => ?_
      simp [sortSlice]
    exact ⟨_, rfl, hsame ▸ hw.known, hsame ▸ hw.len⟩

end Flood

/-- As many states as packets came are kept, however long it lasts. --/
theorem retained_for_good : ∃ pkt : Nat → Packet, ∀ (t : Config) (rs : ReedSolomon) (n : Nat), n ≤ 4294967296 →
    ∀ idle : List Action, (∀ a ∈ idle, ∀ pkt routed, a ≠ .forward pkt routed) →
    ∃ w, exec (step t rs) new ((List.range n).map (fun k => .forward (pkt k) false) ++ idle) = some w ∧
      w.transfers.len = n := by
  refine ⟨Flood.packet, fun t rs n hn idle hidle => ?_⟩
  obtain ⟨w, hrun, hw⟩ := Flood.exec_flood t rs hn
  have hloop : ∃ u, exec (step t rs) w idle = some u ∧ Flood.Flooded n u := by
    clear hrun
    induction idle generalizing w with
    | nil => exact ⟨w, rfl, hw⟩
    | cons a idle ih =>
      obtain ⟨v, hstep, hv⟩ := Flood.step_flooded t rs hw (hidle a mem_cons_self)
      obtain ⟨u, hu, hflood⟩ := ih (fun b hb => hidle b (mem_cons_of_mem _ hb)) v hv
      exact ⟨u, exec_cons.mpr ⟨v, hstep, hu⟩, hflood⟩
  obtain ⟨u, hu, hflood⟩ := hloop
  exact ⟨u, exec_append.mpr ⟨w, hrun, hu⟩, hflood.len⟩

end SyncSwarm.Transfer.Retainer
