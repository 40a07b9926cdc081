import SyncSwarm.Theorems.Ingest.Objects
import SyncSwarm.Transfer.Delivery

/-! The acknowledgements that the receiving node owes: for which transfers they speak, and whose
    reply blocks they use. -/

namespace SyncSwarm.Transfer
open Lib Protocol Fragment List Option

def Ack.names? : Ack → Option TransferID
  | .reply _ => none
  | .direct _ id => some id
  | .routed _ id => some id

/-! ### Streams -/

namespace StreamAssembler
variable {t : Config} {rs : ReedSolomon} {sa sa' sb : StreamAssembler} {pkt : Packet}

/-- The assembler acknowledges its own transfer, or sends its own reply block. --/
def Answers (sa : StreamAssembler) : Prop := ∀ ack ∈ sa.acks, ack = .reply sa.replyBlock ∨ ack.names? = some sa.id

theorem answers_new (pkt : Packet) : (newStreamAssembler pkt).Answers := nofun

structure Extends (sa sa' : StreamAssembler) : Prop where
  id : sa'.id = sa.id
  replyBlock : sa'.replyBlock = sa.replyBlock
  answers : sa.Answers → sa'.Answers

theorem Extends.refl (sa : StreamAssembler) : sa.Extends sa := ⟨rfl, rfl, fun h => h⟩

theorem Extends.trans (h : sa.Extends sa') (h' : sa'.Extends sb) : sa.Extends sb :=
  ⟨h'.id.trans h.id, h'.replyBlock.trans h.replyBlock, fun ha => h'.answers (h.answers ha)⟩

theorem extends_finish (sa : StreamAssembler) (t : Config) : sa.Extends (sa.finish t) := by
  refine ⟨rfl, rfl, fun h ack hack => ?_⟩
  simp only [acks, finish, filterMap_append, mem_append] at hack
  rcases hack with hack | hack
  · exact h ack hack
  · obtain ⟨e, he, heq⟩ := mem_filterMap.mp hack
    obtain rfl := mem_singleton.mp he
    split at heq
    next hfin =>
      obtain ⟨-, rfl⟩ := StreamEvent.finish.inj hfin
      split at heq
      · exact .inl (Option.some.inj heq).symm
      · split at heq
        · exact .inr (Option.some.inj heq ▸ rfl)
        · cases heq
    · cases heq

theorem extends_writeNext (sa : StreamAssembler) (b : StreamBlock) : sa.Extends (sa.writeNext b) := by
  refine ⟨rfl, rfl, fun h ack hack => ?_⟩
  simp only [acks, writeNext, filterMap_append, mem_append] at hack
  rcases hack with hack | hack
  · exact h ack hack
  · cases hack

theorem extends_flushLoop (t : Config) (rounds : Nat) (sa : StreamAssembler) : sa.Extends (flushLoop t rounds sa) := by
  induction rounds generalizing sa with
  | zero => exact .refl sa
  | succ rounds ih =>
    rw [flushLoop]
    split
    · exact .refl sa
    next b _ =>
      split
      · split
        · exact (extends_writeNext sa b).trans (extends_finish _ t)
        · exact (extends_writeNext sa b).trans (ih _)
      · exact .refl sa

theorem extends_add (h : sa.add t rs pkt = .ok sa') : sa.Extends sa' := by
  rw [add] at h
  split at h
  · cases h
    exact .refl sa
  · dsimp only at h
    split at h
    · cases h
      exact .refl sa
    · obtain ⟨b, -, rfl⟩ := map_eq_ok.mp h
      have hset : sa.Extends { sa with blocks := sa.blocks.set pkt.blockIndex b } := ⟨rfl, rfl, fun ha => ha⟩
      exact hset.trans (extends_flushLoop t _ _)

end StreamAssembler

/-! ### States -/

namespace State
variable {t : Config} {rs : ReedSolomon} {st st' : State} {pkt : Packet} {phase : CallPhase} {ack : Ack}

theorem mem_ackSenders (h : ack ∈ st.ackSenders) :
    ack = .reply st.replyBlock ∧ 0 < st.replyBlock.length ∨ ack.names? = some st.id := by
  rw [ackSenders] at h
  rcases mem_append.mp h with h | h
  · split at h
    · next hpos => exact .inl ⟨mem_singleton.mp h, hpos⟩
    · cases h
  · split at h
    · obtain rfl := mem_singleton.mp h
      right
      split <;> rfl
    · cases h

structure Streams (st : State) (fresh : Option StreamAssembler) (st' : State) : Prop where
  id : st'.id = st.id
  replyBlock : st'.replyBlock = st.replyBlock
  stream : ∀ sa' ∈ st'.stream, ∃ sa, sa.Extends sa' ∧ (st.stream = some sa ∨ fresh = some sa)

theorem streams_of_eq {fresh : Option StreamAssembler} (hid : st'.id = st.id) (hreply : st'.replyBlock = st.replyBlock)
    (hstream : st'.stream = st.stream) : st.Streams fresh st' :=
  ⟨hid, hreply, fun sa hsa => ⟨sa, .refl sa, .inl (hstream ▸ hsa)⟩⟩

theorem ingest_streams (h : st.ingest t rs pkt = .ok (st', phase)) :
    st.Streams (some (newStreamAssembler pkt)) st' := by
  by_cases hs : pkt.streaming = true
  · rw [ingest, if_pos hs] at h
    obtain ⟨sa', hadd, heq⟩ := map_eq_ok.mp h
    obtain ⟨rfl, -⟩ := Prod.mk.inj heq
    refine ⟨rfl, rfl, fun sb hsb => ⟨st.stream.getD (newStreamAssembler pkt), ?_, ?_⟩⟩
    · cases hsb
      exact StreamAssembler.extends_add hadd
    · cases st.stream with
      | none => exact .inr rfl
      | some sa => exact .inl rfl
  · cases ingest_cases h with
    | streamed hstream => exact absurd hstream hs
    | late | kept | completed => exact streams_of_eq rfl rfl rfl

theorem processChunk_streams (h : st.processChunk t rs pkt = .ok st') : st.Streams none st' := by
  rw [processChunk] at h
  split at h
  next sa hsa =>
    obtain ⟨sa', hadd, rfl⟩ := map_eq_ok.mp h
    refine ⟨rfl, rfl, fun sb hsb => ⟨sa, ?_, .inl hsa⟩⟩
    cases hsb
    exact StreamAssembler.extends_add hadd
  · cases h
    exact streams_of_eq rfl rfl rfl

end State

/-! ### The node -/

namespace Receiver
variable {t : Config} {rs : ReedSolomon} {w u : Receiver} {a : Action} {id : TransferID} {replies : List Bytes}

def Dispatched (w : Receiver) (id : TransferID) : Prop := ∃ e ∈ w.dispatched, e.id = id

theorem Steps.dispatched_prefix (hs : Steps t rs w a u) : w.dispatched <+: u.dispatched := by
  cases hs with
  | dispatched | delivered => exact prefix_append _ _
  | _ => exact prefix_rfl

theorem Dispatched.mono (h : w.Dispatched id) (hs : w.dispatched <+: u.dispatched) : u.Dispatched id := by
  obtain ⟨e, he, hid⟩ := h
  exact ⟨e, hs.subset he, hid⟩

/-- Nobody brings one of the reply blocks with another transfer, unless the transfer of the reply blocks has been
    dispatched. --/
def Secret (replies : List Bytes) (id : TransferID) (w : Receiver) : Action → Prop
  | .forward pkt _ => pkt.replyBlock ∈ replies → pkt.id = id ∨ w.Dispatched id
  | .connect pkt => pkt.replyBlock ∈ replies → pkt.id = id ∨ w.Dispatched id
  | _ => True

structure GuardedStream (replies : List Bytes) (id : TransferID) (dispatched : Prop) (own : TransferID)
    (sa : StreamAssembler) :
    Prop where
  id_eq : sa.id = own
  answers : sa.Answers
  reply : sa.replyBlock ∈ replies → own = id ∨ dispatched

structure Guarded (replies : List Bytes) (id : TransferID) (w : Receiver) : Prop where
  call : ∀ x ∈ w.calls, x.pkt.replyBlock ∈ replies → x.pkt.id = id ∨ w.Dispatched id
  state : ∀ st ∈ w.objects, 0 < st.replyBlock.length → st.replyBlock ∈ replies → st.id = id ∨ w.Dispatched id
  stream : ∀ st ∈ w.objects, ∀ sa ∈ st.stream, GuardedStream replies id (w.Dispatched id) st.id sa
  dispatched : ∀ e ∈ w.dispatched, ∀ ack ∈ e.acks,
    ack.names? = some e.id ∨ ∃ rb, ack = .reply rb ∧ (rb ∈ replies → w.Dispatched id)

theorem guarded_new : new.Guarded replies id := by
  constructor
  all_goals exact fun x hx => absurd hx not_mem_nil

theorem Guarded.owed (h : w.Guarded replies id) (hplain : ∀ st ∈ w.objects, st.id = id → st.stream = none) {ack : Ack}
    (hack : ack ∈ w.owed) :
    (ack.names? = some id → w.Dispatched id) ∧ ∀ rb ∈ replies, ack = .reply rb → w.Dispatched id := by
  rcases mem_append.mp hack with hack | hack
  · obtain ⟨e, he, hack⟩ := mem_flatMap.mp hack
    rcases h.dispatched e he ack hack with hname | ⟨rb, rfl, hrb⟩
    · refine ⟨fun hid => ⟨e, he, mem_unique hname hid⟩, fun rb _ heq => ?_⟩
      rw [heq] at hname
      cases hname
    · refine ⟨fun hid => (nomatch hid), fun rb' hmem heq => ?_⟩
      obtain rfl := Ack.reply.inj heq
      exact hrb hmem
  · obtain ⟨st, hst, hack⟩ := mem_flatMap.mp hack
    cases hstream : st.stream with
    | none =>
      rw [hstream] at hack
      cases hack
    | some sa =>
      rw [hstream] at hack
      have hsa := h.stream st hst sa hstream
      have hne : st.id ≠ id := fun he => by
        rw [hplain st hst he] at hstream
        cases hstream
      rcases hsa.answers ack hack with rfl | hname
      · refine ⟨fun hid => (nomatch hid), fun rb hmem heq => ?_⟩
        obtain rfl := Ack.reply.inj heq
        exact (hsa.reply hmem).resolve_left hne
      · refine ⟨fun hown => absurd (hsa.id_eq.symm.trans (mem_unique hname hown)) hne, fun rb _ heq => ?_⟩
        rw [heq] at hname
        cases hname

theorem Guarded.mono_dispatched (h : w.Guarded replies id) {more : List Dispatch}
    (hmore : ∀ e ∈ more, ∀ ack ∈ e.acks, ack.names? = some e.id ∨ ∃ rb, ack = .reply rb ∧
      (rb ∈ replies → ({ w with dispatched := w.dispatched ++ more } : Receiver).Dispatched id)) :
    ({ w with dispatched := w.dispatched ++ more } : Receiver).Guarded replies id := by
  have hmono : w.Dispatched id → ({ w with dispatched := w.dispatched ++ more } : Receiver).Dispatched id :=
    fun hd => hd.mono (prefix_append _ _)
  refine ⟨fun x hx hrb => (h.call x hx hrb).imp_right hmono, fun st hst hpos hrb =>
    (h.state st hst hpos hrb).imp_right hmono,
    fun st hst sa hsa => ?_, fun e he ack hack => ?_⟩
  · have hsa := h.stream st hst sa hsa
    exact ⟨hsa.id_eq, hsa.answers, fun hrb => (hsa.reply hrb).imp_right hmono⟩
  · rcases mem_append.mp he with he | he
    · exact (h.dispatched e he ack hack).imp_right fun ⟨rb, heq, hrb⟩ => ⟨rb, heq, fun hmem => hmono (hrb hmem)⟩
    · exact hmore e he ack hack

theorem Guarded.log {st : State} {ref : Nat} {data : Bytes} (h : w.Guarded replies id) (hst : st ∈ w.objects) :
    (w.log ref st data).Guarded replies id := by
  refine h.mono_dispatched fun e he ack hack => ?_
  obtain rfl := mem_singleton.mp he
  rcases State.mem_ackSenders hack with ⟨rfl, hpos⟩ | hname
  · refine .inr ⟨_, rfl, fun hmem => ?_⟩
    rcases h.state st hst hpos hmem with hid | hd
    · exact ⟨_, mem_append_right _ (mem_singleton_self _), hid⟩
    · exact hd.mono (prefix_append _ _)
  · exact .inl hname

theorem Guarded.setCall {c : Nat} {x : IngestCall} {phase : CallPhase} (h : w.Guarded replies id)
    (hx : w.calls[c]? = some x) :
    (w.setCall c x phase).Guarded replies id := by
  refine ⟨fun y hy => ?_, h.state, h.stream, h.dispatched⟩
  rcases mem_or_eq_of_mem_set hy with hy | rfl
  · exact h.call y hy
  · exact h.call x (mem_of_getElem? hx)

theorem Guarded.addCall {x : IngestCall} (h : w.Guarded replies id)
    (hx : x.pkt.replyBlock ∈ replies → x.pkt.id = id ∨ w.Dispatched id) :
    ({ w with calls := w.calls ++ [x] } : Receiver).Guarded replies id := by
  refine ⟨fun y hy => ?_, h.state, h.stream, h.dispatched⟩
  rcases mem_append_single.mp hy with hy | rfl
  · exact h.call y hy
  · exact hx

theorem Guarded.addObject {st : State} (h : w.Guarded replies id)
    (hstate : 0 < st.replyBlock.length → st.replyBlock ∈ replies → st.id = id ∨ w.Dispatched id)
    (hstream : ∀ sa ∈ st.stream, GuardedStream replies id (w.Dispatched id) st.id sa) :
    ({ w with objects := w.objects ++ [st] } : Receiver).Guarded replies id := by
  refine ⟨h.call, fun s hs => ?_, fun s hs => ?_, h.dispatched⟩
  · rcases mem_append_single.mp hs with hs | rfl
    · exact h.state s hs
    · exact hstate
  · rcases mem_append_single.mp hs with hs | rfl
    · exact h.stream s hs
    · exact hstream

theorem Guarded.setObject {st st' : State} {r : Nat} {fresh : Option StreamAssembler} (h : w.Guarded replies id)
    (hst : w.objects[r]? = some st) (hs : st.Streams fresh st')
    (hfresh : ∀ sa ∈ fresh, GuardedStream replies id (w.Dispatched id) st.id sa) :
    (w.setObject r st').Guarded replies id := by
  have hold := mem_of_getElem? hst
  refine ⟨h.call, fun s hmem => ?_, fun s hmem => ?_, h.dispatched⟩
  · rcases mem_or_eq_of_mem_set hmem with hmem | rfl
    · exact h.state s hmem
    · rw [hs.replyBlock, hs.id]
      exact h.state st hold
  · rcases mem_or_eq_of_mem_set hmem with hmem | rfl
    · exact h.stream s hmem
    · intro sa' hsa'
      obtain ⟨sa, hext, hsa⟩ := hs.stream sa' hsa'
      have hsa := hsa.elim (h.stream st hold sa) (hfresh sa)
      rw [hs.id]
      exact ⟨hext.id.trans hsa.id_eq, hext.answers hsa.answers, hext.replyBlock ▸ hsa.reply⟩

theorem Steps.guarded (hs : Steps t rs w a u) (hrefs : w.Refs) (hsecret : w.Secret replies id a)
    (h : w.Guarded replies id) :
    u.Guarded replies id := by
  cases hs with
  | loaded => exact h.addCall hsecret
  | @created pkt routed =>
    have hnew : ({ w with objects := w.objects ++ [newForwardedState pkt routed] } : Receiver).Guarded replies id :=
      h.addObject (fun _ => hsecret) fun sa hsa => nomatch hsa
    have hcall := hnew.addCall (x := ⟨pkt, w.objects.length, .loaded⟩) hsecret
    exact ⟨hcall.call, hcall.state, hcall.stream, hcall.dispatched⟩
  | @processed c x st st' phase hx hp hst hok =>
    have hid : st.id = x.pkt.id := (hrefs.call x (mem_of_getElem? hx)).id_eq hst
    have hset := h.setObject hst (State.ingest_streams hok) fun sa hsa => by
      cases hsa
      exact ⟨hid.symm, StreamAssembler.answers_new x.pkt, hid ▸ h.call x (mem_of_getElem? hx)⟩
    have hcall : ((w.setObject x.ref st').setCall c x phase).Guarded replies id := hset.setCall hx
    exact ⟨hcall.call, hcall.state, hcall.stream, hcall.dispatched⟩
  | @dispatched c x st data hx hp hst =>
    have hlog : (w.log x.ref st data).Guarded replies id := h.log (mem_of_getElem? hst)
    exact hlog.setCall hx
  | @deleted c x hx hp =>
    have hset : (w.setCall c x .done).Guarded replies id := h.setCall hx
    exact ⟨hset.call, hset.state, hset.stream, hset.dispatched⟩
  | @connected pkt hnone =>
    have hnew : ({ w with objects := w.objects ++ [newDirectState pkt] } : Receiver).Guarded replies id := by
      refine h.addObject (fun hpos => absurd hpos (by simp [newDirectState])) fun sa hsa => ?_
      simp only [newDirectState, mem_def] at hsa
      split at hsa
      · cases hsa
        exact ⟨rfl, StreamAssembler.answers_new pkt, hsecret⟩
      · cases hsa
    exact ⟨hnew.call, hnew.state, hnew.stream, hnew.dispatched⟩
  | @chunked c x st st' pkt hx hp hst hok =>
    have hset := h.setObject hst (State.processChunk_streams hok) fun sa hsa => nomatch hsa
    exact ⟨hset.call, hset.state, hset.stream, hset.dispatched⟩
  | @delivered c x st data hx hp hst =>
    have hlog : (w.log x.ref st data).Guarded replies id := h.log (mem_of_getElem? hst)
    exact ⟨hlog.call, hlog.state, hlog.stream, hlog.dispatched⟩
  | _ => exact ⟨h.call, h.state, h.stream, h.dispatched⟩

end Receiver
end SyncSwarm.Transfer
