import SyncSwarm.Transfer.Ingest

/-! What a step of the receiving node can do. -/

namespace SyncSwarm.Transfer.Receiver
open Lib Protocol Fragment Option

variable {t : Config} {rs : ReedSolomon} {w u : Receiver} {a : Action}

/-- What each action can do. --/
inductive Steps (t : Config) (rs : ReedSolomon) (w : Receiver) : Action → Receiver → Prop where
  | loaded {pkt routed ref} : w.table.get? pkt.id = some ref →
    Steps t rs w (.forward pkt routed) { w with calls := w.calls ++ [⟨pkt, ref, .loaded⟩] }
  | created {pkt routed} : w.table.get? pkt.id = none →
    Steps t rs w (.forward pkt routed)
      { w with
        objects := w.objects ++ [newForwardedState pkt routed]
        table := w.table.set pkt.id w.objects.length
        calls := w.calls ++ [⟨pkt, w.objects.length, .loaded⟩] }
  | processed {c x st st' phase} : w.calls[c]? = some x → x.phase = .loaded → w.objects[x.ref]? = some st →
    st.ingest t rs x.pkt = .ok (st', phase) →
    Steps t rs w (.process c)
      { (w.setObject x.ref st').setCall c x phase with
        taken := st.takes x.ref x.pkt (!x.pkt.streaming && !st.delivered) ++ w.taken }
  | dispatched {c x st data} : w.calls[c]? = some x → x.phase = .delivering data → w.objects[x.ref]? = some st →
    Steps t rs w (.dispatch c) ((w.log x.ref st data).setCall c x .deleting)
  | deleted {c x} : w.calls[c]? = some x → x.phase = .deleting →
    Steps t rs w (.delete c) { w.setCall c x .done with table := w.table.delete x.pkt.id }
  | resumed {pkt ref} : (pkt.resumable && pkt.streaming) = true → w.table.get? pkt.id = some ref →
    Steps t rs w (.connect pkt) { w with conns := w.conns ++ [⟨ref, pkt.id, true, .reading⟩] }
  | connected {pkt} : ((pkt.resumable && pkt.streaming) = true → w.table.get? pkt.id = none) →
    Steps t rs w (.connect pkt)
      { w with
        objects := w.objects ++ [newDirectState pkt]
        table := w.table.set pkt.id w.objects.length
        conns := w.conns ++ [⟨w.objects.length, pkt.id, pkt.resumable && pkt.streaming, .reading⟩] }
  | chunked {c x st st' pkt} : w.conns[c]? = some x → x.phase = .reading → w.objects[x.ref]? = some st →
    st.processChunk t rs pkt = .ok st' →
    Steps t rs w (.chunk c pkt)
      { (w.setObject x.ref st').setConn c x .acking with
        taken := st.takes x.ref pkt st.stream.isNone ++ w.taken }
  | acked {c x phase} : w.conns[c]? = some x → x.phase = .acking → phase = .leaving ∨ phase = .reading →
    Steps t rs w (.ack c) (w.setConn c x phase)
  | ended {c x} : w.conns[c]? = some x → x.phase = .reading → Steps t rs w (.eof c) (w.setConn c x .leaving)
  | failed {c x} : w.conns[c]? = some x → x.phase = .reading ∨ x.phase = .acking →
    Steps t rs w (.fail c) (w.setConn c x .closing)
  | delivered {c x st data} : w.conns[c]? = some x → x.phase = .leaving → w.objects[x.ref]? = some st →
    st.stream = none → st.isCompleteLocked → t.reassemble rs st.toTransferState = .ok data →
    Steps t rs w (.finish c) ((w.log x.ref st data).setConn c x .closing)
  | undelivered {c x} : w.conns[c]? = some x → x.phase = .leaving → Steps t rs w (.finish c) (w.setConn c x .closing)
  | kept {c x} : w.conns[c]? = some x → x.phase = .closing → Steps t rs w (.close c) (w.setConn c x .closed)
  | closed {c x} : w.conns[c]? = some x → x.phase = .closing →
    Steps t rs w (.close c) { w.setConn c x .closed with table := w.table.delete x.id }
  | crashed {b : Action} : Steps t rs w b { w with down := true }

theorem bind_object {β : Type} {o : Option β} {p : β → Prop} [DecidablePred p] {f : β → State → Receiver}
    {ref : β → Nat} (h : (o.bind fun x => if p x then w.objects[ref x]?.map (f x) else none) = some u) :
    ∃ x st, o = some x ∧ p x ∧ w.objects[ref x]? = some st ∧ f x st = u := by
  obtain ⟨x, hx, h⟩ := bind_eq_some_iff.mp h
  split at h
  next hp =>
    obtain ⟨st, hst, hu⟩ := map_eq_some_iff.mp h
    exact ⟨x, st, hx, hp, hst, hu⟩
  · cases h

theorem bind_phase {β : Type} {o : Option β} {p : β → Prop} [DecidablePred p] {f : β → Receiver}
    (h : (o.bind fun x => if p x then some (f x) else none) = some u) : ∃ x, o = some x ∧ p x ∧ f x = u := by
  obtain ⟨x, hx, h⟩ := bind_eq_some_iff.mp h
  split at h
  · next hp => exact ⟨x, hx, hp, Option.some.inj h⟩
  · cases h

theorem step_up (h : step t rs w a = some u) : w.down = false := by
  rw [step] at h
  split at h
  · cases h
  · next hup => exact Bool.eq_false_iff.mpr hup

theorem connect_cases (pkt : Packet) : Steps t rs w (.connect pkt) (w.connect pkt) := by
  rw [connect]
  split
  next ref href =>
    split at href
    · next hkeep => exact hkeep ▸ .resumed hkeep href
    · cases href
  next hnone =>
    refine .connected fun hkeep => ?_
    rwa [if_pos hkeep] at hnone

theorem step_cases (h : step t rs w a = some u) : Steps t rs w a u := by
  rw [step] at h
  split at h
  · cases h
  cases a with
  | forward pkt routed =>
    cases h
    rw [forward]
    split
    · next ref href => exact .loaded href
    · next hnone => exact .created hnone
  | process c =>
    obtain ⟨x, st, hx, hp, hst, rfl⟩ := bind_object h
    rw [process]
    split
    · next st' phase hok => exact .processed hx hp hst hok
    · exact .crashed
  | dispatch c =>
    obtain ⟨x, hx, h⟩ := bind_eq_some_iff.mp h
    split at h
    next data hp =>
      obtain ⟨st, hst, rfl⟩ := map_eq_some_iff.mp h
      exact .dispatched hx hp hst
    · cases h
  | delete c =>
    obtain ⟨x, hx, hp, rfl⟩ := bind_phase h
    exact .deleted hx hp
  | connect pkt =>
    cases h
    exact connect_cases pkt
  | chunk c pkt =>
    obtain ⟨x, st, hx, hp, hst, rfl⟩ := bind_object h
    rw [chunk]
    split
    · next st' hok => exact .chunked hx hp hst hok
    · exact .crashed
  | ack c =>
    obtain ⟨x, st, hx, hp, hst, rfl⟩ := bind_object h
    refine .acked hx hp ?_
    split
    · exact .inl rfl
    · exact .inr rfl
  | eof c =>
    obtain ⟨x, hx, hp, rfl⟩ := bind_phase h
    exact .ended hx hp
  | fail c =>
    obtain ⟨x, hx, hp, rfl⟩ := bind_phase h
    exact .failed hx hp
  | finish c =>
    obtain ⟨x, st, hx, hp, hst, rfl⟩ := bind_object h
    rw [finish]
    split
    next hdone =>
      rw [Bool.and_eq_true, isNone_iff_eq_none] at hdone
      obtain ⟨hcomplete, hstream⟩ := hdone
      rw [State.isTransferComplete, hstream] at hcomplete
      split
      · next data hok => exact .delivered hx hp hst hstream hcomplete hok
      · exact .undelivered hx hp
      · exact .crashed
    · exact .undelivered hx hp
  | close c =>
    obtain ⟨x, st, hx, hp, hst, rfl⟩ := bind_object h
    rw [close]
    split
    · exact .kept hx hp
    · exact .closed hx hp

end SyncSwarm.Transfer.Receiver
