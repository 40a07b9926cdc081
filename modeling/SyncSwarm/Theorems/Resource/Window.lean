import SyncSwarm.Theorems.Resource.Safety

/-! Flow control. The sender is never a window ahead of what is acknowledged, and what is acknowledged has arrived. -/

namespace SyncSwarm.Link
open Lib List Option GoMap

/-! ### The bitmap -/

theorem getD_rdropWhile_zero (l : Bytes) (j : Nat) : (l.rdropWhile (· == 0)).getD j 0 = l.getD j 0 := by
  induction l using List.reverseRecOn with
  | nil => rfl
  | append_singleton l b ih =>
    rw [rdropWhile_concat]
    split
    next hb =>
      obtain rfl := beq_iff_eq.mp hb
      rw [ih]
      by_cases hj : j < l.length
      · rw [getD_append _ _ _ _ hj]
      · have hle := Nat.not_lt.mp hj
        rw [getD_append_right _ _ _ _ hle, getD_eq_default _ _ hle]
        cases j - l.length <;> rfl
    · rfl

theorem RecvState.bitSet_ackBitmapLocked {st : RecvState} {k : Nat} (hk : k < 8 * maxAckBitmapBytes)
    (hgot : st.Got (st.base + k)) :
    ResourceSender.bitSet st.ackBitmapLocked k = true := by
  have hlt : k / 8 < st.bitmapBytes := by
    have hin := lt_of_getElem? hgot
    rw [st.got_len] at hin
    rw [bitmapBytes]
    omega
  rw [ResourceSender.bitSet, ackBitmapLocked, getD_rdropWhile_zero,
    getD_eq_getElem _ _ (by simpa using hlt), getElem_map,
    getElem_range, testBit_bitmapByte _ _ (Nat.mod_lt _ (by decide)), Nat.div_add_mod]
  exact getD_got.mpr hgot

/-! ### Moves of the sender -/

namespace ResourceSender
variable {s : ResourceSender} {now : Int}

theorem windowLimit_le_window (s : ResourceSender) (top : Nat) : s.windowLimit top ≤ s.base + s.window := by
  rw [windowLimit, wrapInt]
  split <;> omega

def HasSent (s : ResourceSender) (frame : Bytes) : Prop := frame = s.advFrame ∨ ∃ i < s.sentHigh, frame = s.partFrame i

/-- What the sender becomes, and what it sends. --/
structure Paces (s : ResourceSender) (out : ResourceSender × List Bytes) : Prop where
  continues : Continues s out.1
  grows : s.sentHigh ≤ out.1.sentHigh
  high : s.sentHigh ≤ s.base + s.window → out.1.sentHigh ≤ out.1.base + out.1.window
  sent : ∀ frame ∈ out.2, out.1.HasSent frame

theorem Paces.hasSent {out : ResourceSender × List Bytes} {frame : Bytes} (hp : Paces s out) (h : s.HasSent frame) :
    out.1.HasSent frame := by
  rcases h with rfl | ⟨i, hi, rfl⟩
  · exact .inl hp.continues.advFrame.symm
  · exact .inr ⟨i, Nat.lt_of_lt_of_le hi hp.grows, (hp.continues.partFrame i).symm⟩

theorem Paces.trans {a b : ResourceSender × List Bytes} (ha : Paces s a) (hb : Paces a.1 b) :
    Paces s (b.1, a.2 ++ b.2) where
  continues := ha.continues.trans hb.continues
  grows := ha.grows.trans hb.grows
  high h := hb.high (ha.high h)
  sent frame hf := (mem_append.mp hf).elim (fun hf => hb.hasSent (ha.sent frame hf)) (hb.sent frame)

theorem paces_fillWindowLocked (s : ResourceSender) (now : Int) : Paces s (s.fillWindowLocked now) where
  continues := s.fillWindowLocked_continues now
  grows := Nat.le_max_left _ _
  high h := Nat.max_le.mpr ⟨h, s.windowLimit_le_window _⟩
  sent frame hf := by
    obtain ⟨i, hi, rfl⟩ := mem_map.mp hf
    have hrange := mem_range'_1.mp hi
    exact .inr ⟨i, Nat.lt_of_lt_of_le (by omega) (Nat.le_max_right _ _), rfl⟩

theorem paces_dueRetransmitsLocked (s : ResourceSender) (now : Int) : Paces s (s.dueRetransmitsLocked now) where
  continues := ⟨rfl, rfl, rfl, rfl, Nat.le_refl _⟩
  grows := Nat.le_refl _
  high h := h
  sent frame hf := by
    obtain ⟨i, hi, rfl⟩ := mem_map.mp hf
    have hrange := mem_range'_1.mp (mem_filter.mp hi).1
    have hlim := s.windowLimit_le s.sentHigh
    exact .inr ⟨i, show i < s.sentHigh by omega, rfl⟩

theorem paces_start (s : ResourceSender) (now : Int) : Paces s (s.start now) :=
  have hfill := s.paces_fillWindowLocked now
  ⟨hfill.continues, hfill.grows, hfill.high, forall_mem_cons.mpr ⟨.inl hfill.continues.advFrame.symm, hfill.sent⟩⟩

theorem paces_finish (s : ResourceSender) (err : Except String Unit) : Paces s (s.finish err, []) := by
  refine ⟨s.finish_continues err, ?_, ?_, by simp⟩
  all_goals rw [finish]; split <;> simp

theorem paces_mark (s : ResourceSender) (base : Nat) (bitmap : Bytes) : Paces s (s.mark base bitmap, []) where
  continues := s.mark_continues base bitmap
  grows := Nat.le_refl _
  high h := h.trans (Nat.add_le_add_right (Nat.le_max_left _ _) _)
  sent := by simp

theorem Paces.refl (s : ResourceSender) : Paces s (s, []) := ⟨.refl s, Nat.le_refl _, fun h => h, by simp⟩

theorem paces_feed (s : ResourceSender) (frame : Bytes) (now : Int) : Paces s (s.feed frame now) := by
  rw [feed]
  split
  · exact .refl s
  split
  · rw [onAck]
    split
    · exact .refl s
    dsimp only
    split
    · exact .refl s
    split
    · exact (s.paces_mark _ _).trans (paces_finish _ _)
    · exact (s.paces_mark _ _).trans (paces_fillWindowLocked _ _)
  split
  · exact s.paces_finish _
  · exact .refl s

end ResourceSender

/-! ### The receiver, and runs -/

namespace Exchange
variable {sha256 : Bytes → Hash} {data : Bytes} {x y : Exchange}

/-- The receiver has only parts that were sent, and the sender has sent no more than a window. --/
structure Windowed (x : Exchange) : Prop where
  high : x.sender.sentHigh ≤ x.sender.base + x.sender.window
  sent : ∀ frame ∈ x.toRecv, x.sender.HasSent frame
  got : ∀ i, x.Received i → i < x.sender.sentHigh

theorem received_feed {s : ResourceSender} {r : ResourceReceiver} {frame : Bytes} {now : Int} {order : List ResID}
    {st' : RecvState} {i : Nat} (hs : s.HasSent frame)
    (hst' : (r.feed sha256 frame now order).receiver.byID.get? s.id = some st') (hi : st'.Got i) :
    (∃ st, r.byID.get? s.id = some st ∧ st.Got i) ∨ ∃ j < s.sentHigh, i = j % 4294967296 := by
  rcases hs with rfl | ⟨j, hj, rfl⟩
  · rw [ResourceReceiver.feed_advFrame, ResourceReceiver.advertise] at hst'
    split at hst'
    · exact .inl ⟨st', hst', hi⟩
    split at hst'
    · exact .inl ⟨st', hst', hi⟩
    split at hst'
    · exact .inl ⟨st', hst', hi⟩
    · cases (get?_set_self _ _ _).symm.trans hst'
      simp [RecvState.new, RecvState.Got, getElem?_replicate] at hi
  · rw [ResourceReceiver.feed_partFrame] at hst'
    cases hst : r.byID.get? s.id with
    | none =>
      rw [r.receivePart_of_none now order hst] at hst'
      split at hst' <;> cases hst.symm.trans hst'
    | some st =>
      by_cases hlt : j % 4294967296 < st.total
      · rw [r.receivePart_of_some now order hst hlt] at hst'
        by_cases hc : (st.store (j % 4294967296) (s.parts.getD j [])).Completes sha256
        · rw [r.acknowledge_of_completes now order hc] at hst'
          cases (get?_delete_self _ _).symm.trans hst'
        · rw [r.acknowledge_of_not now order hc] at hst'
          cases (get?_set_self _ _ _).symm.trans hst'
          exact ((RecvState.store_got hlt).mp hi).imp (fun hi => ⟨st, rfl, hi⟩) fun hi => ⟨j, hj, hi⟩
      · rw [r.receivePart_of_le now order hst (Nat.not_lt.mp hlt)] at hst'
        exact .inl ⟨st', hst.symm.trans hst', hi⟩

theorem Windowed.of_sender (h : Windowed x) {out : ResourceSender × List Bytes} (hp : x.sender.Paces out) :
    Windowed (x.fromSender out) where
  high := hp.high h.high
  sent frame hf := (mem_append.mp hf).elim (fun hf => hp.hasSent (h.sent frame hf)) (hp.sent frame)
  got i hi := by
    obtain ⟨st, hst, hgot⟩ := hi
    exact Nat.lt_of_lt_of_le (h.got i ⟨st, hp.continues.id ▸ hst, hgot⟩) hp.grows

theorem Windowed.of_channels (h : Windowed x) (hs : y.sender = x.sender) (hr : y.receiver = x.receiver)
    (hto : ∀ frame ∈ y.toRecv, frame ∈ x.toRecv) : Windowed y where
  high := hs ▸ h.high
  sent frame hf := hs ▸ h.sent frame (hto frame hf)
  got i hi := by
    rw [Received, hr, hs] at hi
    exact hs ▸ h.got i hi

theorem Windowed.perform (h : Windowed x) {a : Action} (hstep : perform sha256 x a = some y) : Windowed y := by
  cases a with
  | start =>
    rw [Exchange.perform] at hstep
    split at hstep
    · cases hstep
    · cases hstep
      exact (h.of_sender (x.sender.paces_start x.clock)).of_channels rfl rfl fun _ hf => hf
  | tick =>
    rw [Exchange.perform] at hstep
    split at hstep
    · cases hstep
      exact h.of_sender
        ((x.sender.paces_dueRetransmitsLocked x.clock).trans (ResourceSender.paces_fillWindowLocked _ x.clock))
    · cases hstep
  | timeout =>
    cases hstep
    exact (h.of_sender (x.sender.paces_finish _)).of_channels rfl rfl fun _ hf => mem_append_left _ hf
  | recv i order =>
    obtain ⟨frame, hframe, rfl⟩ := map_eq_some_iff.mp hstep
    refine ⟨h.high, fun f hf => h.sent f (mem_of_mem_eraseIdx hf), ?_⟩
    rintro k ⟨st', hst', hgot⟩
    rcases received_feed (h.sent frame (mem_of_getElem? hframe)) hst' hgot with hold | ⟨j, hj, rfl⟩
    · exact h.got k hold
    · exact Nat.lt_of_le_of_lt (Nat.mod_le _ _) hj
  | ack i =>
    obtain ⟨frame, -, rfl⟩ := map_eq_some_iff.mp hstep
    have hx : Windowed { x with toSend := x.toSend.eraseIdx i } := h.of_channels rfl rfl fun _ hf => hf
    exact hx.of_sender (x.sender.paces_feed frame x.clock)
  | dropRecv i =>
    cases hstep
    exact h.of_channels rfl rfl fun _ hf => mem_of_mem_eraseIdx hf
  | dupRecv i =>
    cases hstep
    exact h.of_channels rfl rfl fun _ hf => (mem_append.mp hf).elim id fun hf => mem_of_getElem? (mem_toList.mp hf)
  | dropAck i | dupAck i =>
    cases hstep
    exact h.of_channels rfl rfl fun _ hf => hf

/-- Until the resource is completed, what is on the way and what the receiver holds is within a window of the
    receiver's first gap. An acknowledgement reports all of it if the window is at most 256 parts. --/
theorem window_kept {id : ResID} {partSize window rto : Int} {es : List Event}
    (h : Initial sha256 id data partSize window rto x) (hrun : exec (step sha256) x es = some y)
    (hc : y.completed = []) :
    (∀ frame ∈ y.toRecv, frame = y.sender.advFrame ∨ ∃ i < y.recvBase + y.sender.window, frame = y.sender.partFrame i) ∧
    ∀ st, y.receiver.byID.get? id = some st → (∀ i, st.Got i → i < st.base + y.sender.window) ∧
      (y.sender.window ≤ 256 → ∀ k, ResourceSender.bitSet st.ackBitmapLocked k = true ↔ st.Got (st.base + k)) := by
  have hnew := newResourceSender_ok h.sender
  have hinv : Inv sha256 data y := exec_keeps (fun _ _ _ hz hstep => hz.step hstep) h.inv hrun
  have hfirst : Windowed x := by
    refine ⟨by rw [hnew.sentHigh]; exact Nat.zero_le _, by simp [h.toRecv], ?_⟩
    rintro i ⟨st, hst, -⟩
    cases (hnew.id ▸ h.fresh).symm.trans hst
  have hwin : Windowed y := exec_keeps (P := Windowed)
    (fun z e _ hz hstep => Windowed.perform (x := { z with clock := z.clock + e.elapsed })
      (hz.of_channels rfl rfl fun _ hf => hf) hstep)
    hfirst hrun
  obtain rfl : y.sender.id = id := (exec_continues hrun).id.trans hnew.id
  have hahead : y.sender.sentHigh ≤ y.recvBase + y.sender.window :=
    hwin.high.trans (Nat.add_le_add_right (hinv.base hc) _)
  refine ⟨fun frame hf => (hwin.sent frame hf).imp_right ?_, fun st hst => ?_⟩
  · rintro ⟨i, hi, rfl⟩
    exact ⟨i, Nat.lt_of_lt_of_le hi hahead, rfl⟩
  · rw [recvBase_eq hst] at hahead
    have hnear : ∀ i, st.Got i → i < st.base + y.sender.window :=
      fun i hi => Nat.lt_of_lt_of_le (hwin.got i ⟨st, hst, hi⟩) hahead
    refine ⟨hnear, fun hle k => ⟨RecvState.got_of_bitSet, fun hk => RecvState.bitSet_ackBitmapLocked ?_ hk⟩⟩
    have hlt := hnear _ hk
    have hbits : 8 * maxAckBitmapBytes = 256 := rfl
    omega

/-- The first part is on the way again, and the receiver holds the second. --/
theorem window_kept_lossy : ∃ y st, exec (step sampleSha256) (fresh threeParts) (lossy.take 6) = some y ∧
    y.toRecv = [threeParts.partFrame 0] ∧ y.receiver.byID.get? threeParts.id = some st ∧ st.Got 1 ∧
    (∀ i, st.Got i → i < st.base + 2) ∧
      ∀ k, ResourceSender.bitSet st.ackBitmapLocked k = true ↔ st.Got (st.base + k) := by
  have hrun : exec (step sampleSha256) (fresh threeParts) (lossy.take 6) = some _ := rfl
  have hkept := (window_kept (initial_fresh threeParts_new) hrun rfl).2 _ rfl
  exact ⟨_, _, hrun, rfl, rfl, rfl, hkept.1, hkept.2 (by decide)⟩

end Exchange
end SyncSwarm.Link
