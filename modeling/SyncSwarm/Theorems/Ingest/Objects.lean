import SyncSwarm.Theorems.Ingest.Steps
import SyncSwarm.Lib.Lists
import SyncSwarm.Lib.Except

/-! The states that the table, the calls and the connections refer to: every reference is to a state
    of the right transfer. -/

namespace SyncSwarm.Transfer
open Lib Protocol Fragment List Option GoMap

structure Kind where
  id : TransferID
  total : UInt32
  scheme : Scheme
  hasMeta : Bool

namespace State
variable {t : Config} {rs : ReedSolomon} {st st' : State} {pkt : Packet} {phase : CallPhase}

def kind (st : State) : Kind := ⟨st.id, st.total, st.scheme, st.hasMeta⟩

inductive Ingests (t : Config) (rs : ReedSolomon) (st : State) (pkt : Packet) : State → CallPhase → Prop where
  | streamed {sa phase} : pkt.streaming = true → phase = .deleting ∨ phase = .done →
    Ingests t rs st pkt { st with stream := some sa } phase
  | late : pkt.streaming = false → st.delivered = true → Ingests t rs st pkt st .done
  | kept : pkt.streaming = false → st.delivered = false →
    Ingests t rs st pkt { st with toBuffers := st.toBuffers.record pkt } .done
  | completed {data} : pkt.streaming = false → st.delivered = false →
    ({ st with toBuffers := st.toBuffers.record pkt } : State).enoughToReassembleLocked →
    t.reassemble rs ({ st with toBuffers := st.toBuffers.record pkt } : State).toTransferState = .ok data →
    Ingests t rs st pkt { st with toBuffers := st.toBuffers.record pkt, delivered := true } (.delivering data)

theorem ingest_cases (h : st.ingest t rs pkt = .ok (st', phase)) : Ingests t rs st pkt st' phase := by
  rw [ingest] at h
  split at h
  next hs =>
    obtain ⟨sa, -, heq⟩ := map_eq_ok.mp h
    obtain ⟨rfl, rfl⟩ := Prod.mk.inj heq
    refine .streamed hs ?_
    split
    · exact .inl rfl
    · exact .inr rfl
  next hs =>
    have hs : pkt.streaming = false := Bool.eq_false_iff.mpr hs
    split at h
    next hd =>
      cases h
      exact .late hs hd
    next hd =>
      have hd : st.delivered = false := Bool.eq_false_iff.mpr hd
      dsimp only at h
      split at h
      next henough =>
        split at h
        next data hdata =>
          cases h
          exact .completed hs hd henough hdata
        · cases h
          exact .kept hs hd
        · cases h
      · cases h
        exact .kept hs hd

theorem Ingests.kind_eq (h : Ingests t rs st pkt st' phase) : st'.kind = st.kind := by
  cases h <;> rfl

theorem processChunk_cases (h : st.processChunk t rs pkt = .ok st') :
    (∃ sa, st.stream.isSome ∧ st' = { st with stream := some sa }) ∨
      (st.stream = none ∧ st' = { st with toBuffers := st.toBuffers.record pkt }) := by
  rw [processChunk] at h
  split at h
  next sa hsa =>
    obtain ⟨sa', -, rfl⟩ := map_eq_ok.mp h
    exact .inl ⟨sa', by rw [hsa]; rfl, rfl⟩
  next hnone =>
    cases h
    exact .inr ⟨hnone, rfl⟩

theorem processChunk_kind (h : st.processChunk t rs pkt = .ok st') : st'.kind = st.kind := by
  obtain ⟨sa, -, rfl⟩ | ⟨-, rfl⟩ := processChunk_cases h
  · rfl
  · rfl

inductive Becomes (t : Config) (rs : ReedSolomon) (st : State) : State → Prop where
  | same : Becomes t rs st st
  | ingested {p s next} : Ingests t rs st p s next → Becomes t rs st s
  | chunked {p s} : st.processChunk t rs p = .ok s → Becomes t rs st s

theorem Becomes.kind_eq (h : Becomes t rs st st') : st'.kind = st.kind := by
  cases h with
  | same => rfl
  | ingested h => exact h.kind_eq
  | chunked h => exact processChunk_kind h

theorem Becomes.delivered (h : Becomes t rs st st') (hd : st.delivered = true) : st'.delivered = true := by
  cases h with
  | same => exact hd
  | ingested h =>
    cases h with
    | completed => rfl
    | streamed | late | kept => exact hd
  | chunked h =>
    obtain ⟨sa, -, rfl⟩ | ⟨-, rfl⟩ := processChunk_cases h
    · exact hd
    · exact hd

theorem Becomes.stream (h : Becomes t rs st st') (hs : st.stream.isSome) : st'.stream.isSome := by
  cases h with
  | same => exact hs
  | ingested h =>
    cases h with
    | streamed => rfl
    | late | kept | completed => exact hs
  | chunked h =>
    obtain ⟨sa, -, rfl⟩ | ⟨-, rfl⟩ := processChunk_cases h
    · rfl
    · exact hs

end State

namespace Receiver
variable {t : Config} {rs : ReedSolomon} {w u : Receiver} {a : Action} {ref : Nat} {id : TransferID}

variable {st : State} {x : Conn} {e : Taken}

theorem Steps.object (h : Steps t rs w a u) (hst : w.objects[ref]? = some st) :
    ∃ st', u.objects[ref]? = some st' ∧ State.Becomes t rs st st' := by
  have hset : ∀ {r : Nat} {s s' : State}, w.objects[r]? = some s → u.objects = w.objects.set r s' →
    State.Becomes t rs s s' →
      ∃ st', u.objects[ref]? = some st' ∧ State.Becomes t rs st st' := by
    intro r s s' hr hobj hs
    rw [hobj, getElem?_set']
    split
    next heq =>
      subst heq
      cases hr.symm.trans hst
      exact ⟨s', by rw [hr]; rfl, hs⟩
    · exact ⟨st, hst, .same⟩
  have hmore : ∀ {s : State}, u.objects = w.objects ++ [s] → ∃ st', u.objects[ref]? = some st' ∧
      State.Becomes t rs st st' := by
    intro s hobj
    exact ⟨st, hobj ▸ getElem?_mono (prefix_append _ _) hst, .same⟩
  cases h with
  | created | connected => exact hmore rfl
  | processed _ _ hr hok => exact hset hr rfl (.ingested (State.ingest_cases hok))
  | chunked _ _ hr hok => exact hset hr rfl (.chunked hok)
  | _ => exact ⟨st, hst, .same⟩

def kindAt (w : Receiver) (ref : Nat) : Option Kind := w.objects[ref]?.map State.kind

theorem kindAt_new : ((w.objects ++ [st])[w.objects.length]?).map State.kind = some st.kind := by simp

theorem Steps.kindAt {k : Kind} (h : Steps t rs w a u) (hk : w.kindAt ref = some k) : u.kindAt ref = some k := by
  obtain ⟨st, hst, rfl⟩ := map_eq_some_iff.mp hk
  obtain ⟨st', hst', hbecomes⟩ := h.object hst
  rw [Receiver.kindAt, hst', ← hbecomes.kind_eq]
  rfl

/-! ### References -/

def Of (w : Receiver) (ref : Nat) (id : TransferID) : Prop := (w.kindAt ref).map Kind.id = some id

theorem of_object (h : w.objects[ref]? = some st) : w.Of ref st.id := by
  simp [Of, kindAt, h, State.kind]

theorem Of.id_eq (h : w.Of ref id) (hst : w.objects[ref]? = some st) : st.id = id :=
  mem_unique (of_object hst) h

theorem Of.lt (h : w.Of ref id) : ref < w.objects.length := by
  by_contra hge
  simp [Of, kindAt, getElem?_eq_none (Nat.not_lt.mp hge)] at h

theorem Steps.of (h : Steps t rs w a u) (hof : w.Of ref id) : u.Of ref id := by
  obtain ⟨k, hk, rfl⟩ := map_eq_some_iff.mp hof
  rw [Of, h.kindAt hk]
  rfl

theorem Steps.mem_calls {x : IngestCall} (h : Steps t rs w a u) (hx : x ∈ u.calls) :
    (∃ y ∈ w.calls, y.ref = x.ref ∧ y.pkt = x.pkt) ∨ ∃ routed, a = .forward x.pkt routed ∧
      (w.table.get? x.pkt.id = some x.ref ∨
        x.ref = w.objects.length ∧ u.objects = w.objects ++ [newForwardedState x.pkt routed]) := by
  have hset : ∀ {c : Nat} {y : IngestCall} {phase : CallPhase}, w.calls[c]? = some y →
      x ∈ w.calls.set c { y with phase } → ∃ y ∈ w.calls, y.ref = x.ref ∧ y.pkt = x.pkt := by
    intro c y phase hy hx
    rcases mem_or_eq_of_mem_set hx with hx | rfl
    · exact ⟨x, hx, rfl, rfl⟩
    · exact ⟨y, mem_of_getElem? hy, rfl, rfl⟩
  cases h with
  | loaded href =>
    rcases mem_append_single.mp hx with hx | rfl
    · exact .inl ⟨x, hx, rfl, rfl⟩
    · exact .inr ⟨_, rfl, .inl href⟩
  | created =>
    rcases mem_append_single.mp hx with hx | rfl
    · exact .inl ⟨x, hx, rfl, rfl⟩
    · exact .inr ⟨_, rfl, .inr ⟨rfl, rfl⟩⟩
  | processed hy | dispatched hy | deleted hy => exact .inl (hset hy hx)
  | _ => exact .inl ⟨x, hx, rfl, rfl⟩

theorem Steps.conn_at {c : Nat} (h : Steps t rs w a u) (hx : u.conns[c]? = some x) :
    (∃ y, w.conns[c]? = some y ∧ y.ref = x.ref ∧ y.id = x.id) ∨ c = w.conns.length ∧
      ∃ pkt, a = .connect pkt ∧ pkt.id = x.id ∧
      (pkt.streaming = true ∧ w.table.get? x.id = some x.ref ∨
        x.ref = w.objects.length ∧ u.objects = w.objects ++ [newDirectState pkt]) := by
  have hset : ∀ {d : Nat} {y : Conn} {phase : ConnPhase}, w.conns[d]? = some y →
      (w.conns.set d { y with phase })[c]? = some x → ∃ y, w.conns[c]? = some y ∧ y.ref = x.ref ∧ y.id = x.id := by
    intro d y phase hy hx
    rw [getElem?_set'] at hx
    split at hx
    next hd =>
      subst hd
      rw [hy] at hx
      cases hx
      exact ⟨y, hy, rfl, rfl⟩
    · exact ⟨x, hx, rfl, rfl⟩
  cases h with
  | resumed hkeep href =>
    obtain hx | ⟨rfl, rfl⟩ := getElem?_append_single hx
    · exact .inl ⟨x, hx, rfl, rfl⟩
    · exact .inr ⟨rfl, _, rfl, rfl, .inl ⟨(Bool.and_eq_true_iff.mp hkeep).2, href⟩⟩
  | connected =>
    obtain hx | ⟨rfl, rfl⟩ := getElem?_append_single hx
    · exact .inl ⟨x, hx, rfl, rfl⟩
    · exact .inr ⟨rfl, _, rfl, rfl, .inr ⟨rfl, rfl⟩⟩
  | chunked hy | acked hy | ended hy | failed hy | delivered hy | undelivered hy | kept hy | closed hy =>
    exact .inl (hset hy hx)
  | _ => exact .inl ⟨x, hx, rfl, rfl⟩

theorem Steps.mem_conns (h : Steps t rs w a u) (hx : x ∈ u.conns) :
    (∃ y ∈ w.conns, y.ref = x.ref ∧ y.id = x.id) ∨ ∃ pkt, a = .connect pkt ∧ pkt.id = x.id ∧
      (pkt.streaming = true ∧ w.table.get? x.id = some x.ref ∨
        x.ref = w.objects.length ∧ u.objects = w.objects ++ [newDirectState pkt]) := by
  obtain ⟨c, hc⟩ := mem_iff_getElem?.mp hx
  obtain ⟨y, hy, hkeep⟩ | ⟨-, hnew⟩ := h.conn_at hc
  · exact .inl ⟨y, mem_of_getElem? hy, hkeep⟩
  · exact .inr hnew

theorem Steps.entry (h : Steps t rs w a u) (he : u.table.get? id = some ref) :
    w.table.get? id = some ref ∨ u.Of ref id := by
  have hdelete : ∀ {j : TransferID}, (w.table.delete j).get? id = some ref → w.table.get? id = some ref := by
    intro j hj
    by_cases hid : id = j
    · rw [hid, get?_delete_self] at hj
      cases hj
    · rwa [get?_delete_ne _ hid] at hj
  have hnew : ∀ {j : TransferID}, (w.table.set j w.objects.length).get? id = some ref →
      w.table.get? id = some ref ∨ id = j ∧ ref = w.objects.length := by
    intro j hj
    rw [get?_set] at hj
    split at hj
    · next hid => exact .inr ⟨hid, (Option.some.inj hj).symm⟩
    · exact .inl hj
  cases h with
  | created | connected =>
    refine (hnew he).imp_right ?_
    rintro ⟨rfl, rfl⟩
    exact congrArg (Option.map Kind.id) kindAt_new
  | deleted | closed => exact .inl (hdelete he)
  | _ => exact .inl he

theorem mem_takes {r : Nat} {pkt : Packet} {absorbed : Bool} (h : e ∈ st.takes r pkt absorbed) :
    absorbed = true ∧ e = ⟨r, st.id, pkt⟩ := by
  rw [State.takes] at h
  split at h
  · next habs => exact ⟨habs, mem_singleton.mp h⟩
  · cases h

theorem Steps.mem_taken (h : Steps t rs w a u) (he : e ∈ u.taken) : e ∈ w.taken ∨ w.Of e.ref e.id := by
  cases h with
  | processed _ _ hst | chunked _ _ hst =>
    rcases mem_append.mp he with he | he
    · obtain ⟨-, rfl⟩ := mem_takes he
      exact .inr (of_object hst)
    · exact .inl he
  | _ => exact .inl he

theorem Steps.mem_dispatched {e : Dispatch} (h : Steps t rs w a u) (he : e ∈ u.dispatched) :
    e ∈ w.dispatched ∨ w.Of e.ref e.id := by
  cases h with
  | dispatched _ _ hst | delivered _ _ hst =>
    rcases mem_append_single.mp he with he | rfl
    · exact .inl he
    · exact .inr (of_object hst)
  | _ => exact .inl he

/-- Calls and connections refer to states that exist. --/
structure Refs (w : Receiver) : Prop where
  entry : ∀ {id ref}, w.table.get? id = some ref → w.Of ref id
  call : ∀ x ∈ w.calls, w.Of x.ref x.pkt.id
  conn : ∀ x ∈ w.conns, w.Of x.ref x.id
  taken : ∀ e ∈ w.taken, w.Of e.ref e.id
  dispatched : ∀ e ∈ w.dispatched, w.Of e.ref e.id

theorem refs_new : new.Refs := by
  refine ⟨fun h => ?_, ?_, ?_, ?_, ?_⟩
  · rw [show new.table = ∅ from rfl, get?_empty] at h
    cases h
  all_goals exact fun x hx => absurd hx not_mem_nil

theorem Steps.refs (hs : Steps t rs w a u) (h : w.Refs) : u.Refs where
  entry he := (hs.entry he).elim (fun he => hs.of (h.entry he)) id
  call x hx := by
    obtain ⟨y, hy, href, hpkt⟩ | ⟨routed, -, he | ⟨href, hu⟩⟩ := hs.mem_calls hx
    · exact href ▸ hpkt ▸ hs.of (h.call y hy)
    · exact hs.of (h.entry he)
    · rw [Of, Receiver.kindAt, hu, href]
      exact congrArg (Option.map Kind.id) kindAt_new
  conn x hx := by
    obtain ⟨y, hy, href, hid⟩ | ⟨pkt, -, hid, ⟨-, he⟩ | ⟨href, hu⟩⟩ := hs.mem_conns hx
    · exact href ▸ hid ▸ hs.of (h.conn y hy)
    · exact hs.of (h.entry he)
    · rw [Of, Receiver.kindAt, hu, href, ← hid]
      exact congrArg (Option.map Kind.id) kindAt_new
  taken e he := hs.of ((hs.mem_taken he).elim (h.taken e) fun hof => hof)
  dispatched e he := hs.of ((hs.mem_dispatched he).elim (h.dispatched e) fun hof => hof)

end Receiver
end SyncSwarm.Transfer
