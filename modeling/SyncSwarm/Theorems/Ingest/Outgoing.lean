import SyncSwarm.Theorems.Ingest.Buffers
import SyncSwarm.Theorems.Transfer.RoundTrip

/-! A transfer as its sender has built it, at a receiver that takes nothing else for it: what is dispatched is what was
    sent. -/

namespace SyncSwarm.Transfer
open Lib Protocol Fragment List

/-- The fragments of a payload for a receiver that can open them, with the scheme that goes with them. --/
structure Outgoing (rx : Config) (rs : ReedSolomon) where
  tx : Config
  id : TransferID
  data : Bytes
  isVariable : Bool
  hybrid : Bool
  pq : Bool
  sealer : Option Sealer
  frags : List Fragment
  sc : Scheme
  size : 0 < tx.maxChunkSize
  short : data.length < 9223372036854775808
  built : tx.buildFragments rs id data isVariable sealer = .ok (frags, sc)
  opens : Undoes (rx.recipientOpener { sc with hybridSealed := hybrid, pq }) sealer
  few : frags.length < 4294967296

namespace Outgoing
variable {rx : Config} {rs : ReedSolomon} {o : Outgoing rx rs} {sub : Int} {pkt : Packet}

/-- The scheme that the packets of the transfer carry. --/
def scheme (o : Outgoing rx rs) : Scheme := { o.sc with hybridSealed := o.hybrid, pq := o.pq }

def total (o : Outgoing rx rs) : UInt32 := UInt32.ofNat o.frags.length

/-- No fragment is cut into more pieces than a packet can count. --/
def Cut (o : Outgoing rx rs) (sub : Int) : Prop := ∀ frag ∈ o.frags, (fragmentPieces frag sub).length < 4294967296

def Sent (o : Outgoing rx rs) (sub : Int) (pkt : Packet) : Prop :=
  pkt ∈ packetsOf o.id o.scheme pkt.sourceNode pkt.replyBlock sub o.frags

instance : Decidable (o.Sent sub pkt) := inferInstanceAs (Decidable (_ ∈ _))

instance : Decidable (o.Cut sub) := inferInstanceAs (Decidable (∀ frag ∈ o.frags, _))

structure Opening (o : Outgoing rx rs) (pkt : Packet) : Prop where
  total : pkt.totalChunks = o.total
  scheme : schemeFromPacket pkt = o.scheme

instance : Decidable (o.Opening pkt) :=
  decidable_of_iff (pkt.totalChunks = o.total ∧ schemeFromPacket pkt = o.scheme)
    ⟨fun h => ⟨h.1, h.2⟩, fun h => ⟨h.1, h.2⟩⟩

theorem spec (o : Outgoing rx rs) :
    (o.sc = { isVariable := o.isVariable } ∧
        ∃ parts, join parts = o.data ∧ FragmentsOf (rx.recipientOpener o.scheme) o.id parts o.frags) ∨
      Coded o.tx rs (rx.recipientOpener o.scheme) o.id o.data o.isVariable o.frags o.sc :=
  buildFragments_spec o.opens o.size o.built

theorem place (o : Outgoing rx rs) : ∃ parts, FragmentsOf (rx.recipientOpener o.scheme) o.id parts o.frags := by
  obtain ⟨-, parts, -, hf⟩ | ⟨-, -, -, shards, -, hf⟩ := o.spec
  · exact ⟨parts, hf⟩
  · exact ⟨shards, hf⟩

theorem index (o : Outgoing rx rs) (i : Nat) (frag : Fragment) (hi : o.frags[i]? = some frag) :
    frag.index = UInt32.ofNat i := by
  obtain ⟨parts, hf⟩ := o.place
  exact (hf.place i frag hi).index

theorem streaming (o : Outgoing rx rs) : o.scheme.streaming = false := by
  obtain ⟨hsc, -⟩ | ⟨-, -, hsc, -⟩ := o.spec
  · rw [scheme, hsc]
  · rw [scheme, hsc]

theorem Sent.opening (h : o.Sent sub pkt) : o.Opening pkt := by
  obtain ⟨i, frag, k, part, hfrag, -, heq⟩ := mem_packetsOf.mp h
  obtain ⟨parts, hf⟩ := o.place
  refine ⟨?_, by rw [heq]; rfl⟩
  rw [heq]
  exact (hf.place i frag hfrag).total.trans (by rw [Outgoing.total, hf.length])

theorem Opening.streaming (h : o.Opening pkt) : pkt.streaming = false :=
  (congrArg Scheme.streaming h.scheme).trans o.streaming

abbrev plan (o : Outgoing rx rs) (hcut : o.Cut sub) : Plan := planOf o.frags sub o.few hcut

theorem length_plan (o : Outgoing rx rs) (hcut : o.Cut sub) : (o.plan hcut).parts.length = o.frags.length :=
  length_planOf o.few hcut

theorem held (hcut : o.Cut sub) {pkts : List Packet} (h : ∀ pkt ∈ pkts, o.Sent sub pkt) :
    (o.plan hcut).Held pkts.reverse (Buffers.empty.recordAll pkts).1 := by
  have hheld := ((o.plan hcut).held_empty).recordAll fun pkt hpkt => fits_of_mem o.index (h pkt hpkt)
  rwa [append_nil] at hheld

structure Records (o : Outgoing rx rs) (sub : Int) (pkts : List Packet) (st : TransferState) : Prop where
  id : st.id = o.id
  total : st.total = o.total
  scheme : st.scheme = o.scheme
  sent : ∀ pkt ∈ pkts, o.Sent sub pkt
  buffers : st.toBuffers = (Buffers.empty.recordAll pkts).1

namespace Records
variable {pkts : List Packet} {st : TransferState}

theorem held (h : o.Records sub pkts st) (hcut : o.Cut sub) : (o.plan hcut).Held pkts.reverse st.toBuffers :=
  h.buffers ▸ Outgoing.held hcut h.sent

theorem done_of_ready (h : o.Records sub pkts st) (hcut : o.Cut sub)
    (hready : st.enoughToReassembleLocked ∨ st.isCompleteLocked) :
    (∀ i < o.frags.length, i ∈ (o.plan hcut).done pkts.reverse) ∨
      0 < o.sc.dataShards ∧ o.sc.dataShards.toNat ≤ ((o.plan hcut).done pkts.reverse).length := by
  have hdata : st.scheme.dataShards = o.sc.dataShards := by rw [h.scheme, Outgoing.scheme]
  rcases hready with henough | hcomplete
  · by_cases hpos : 0 < o.sc.dataShards
    · have hle := (enough_coded (h.held hcut) (hdata ▸ hpos)).mp henough
      rw [hdata] at hle
      exact .inr ⟨hpos, hle⟩
    · have hzero : st.scheme.dataShards = 0 := hdata.trans (UInt32.le_antisymm (UInt32.not_lt.mp hpos) UInt32.zero_le)
      exact .inl ((enough_sequential (h.held hcut) hzero h.total).mp henough)
  · exact .inl ((complete_iff (h.held hcut) h.total).mp hcomplete)

theorem reassembles (h : o.Records sub pkts st) (hrs : rs.Lawful) (hcut : o.Cut sub)
    (hready : st.enoughToReassembleLocked ∨ st.isCompleteLocked) : rx.reassemble rs st = .ok o.data := by
  have hb := h.held hcut
  have hdone := h.done_of_ready hcut hready
  obtain ⟨hsc, parts, hjoin, hf⟩ | ⟨hpos, hkeyed, hsc, shards, hshards, hf⟩ := o.spec
  · have hall : ∀ i < o.frags.length, i ∈ (o.plan hcut).done pkts.reverse :=
      hdone.resolve_right fun hcoded => absurd hcoded.1 (by rw [hsc]; exact UInt32.lt_irrefl 0)
    rw [← hjoin]
    exact reassemble_sequential hb (by rw [h.scheme, Outgoing.scheme, hsc]) h.total (by rwa [h.scheme, h.id]) hall
  · obtain ⟨s, hopener⟩ := Option.isSome_iff_exists.mp hkeyed
    have hfewer : o.tx.dataShards.toNat ≤ o.frags.length := by
      rw [hf.length, hrs.length hshards]
      exact Nat.le_add_right _ _
    have hle : o.tx.dataShards.toNat ≤ ((o.plan hcut).done pkts.reverse).length := by
      rcases hdone with hall | ⟨-, hle⟩
      · have hlen := Plan.length_done_of_all fun i hi => hall i (o.length_plan hcut ▸ hi)
        exact hfewer.trans_eq (hlen.trans (o.length_plan hcut)).symm
      · rwa [hsc, UInt32.toNat_ofNat_of_lt' (Nat.lt_of_le_of_lt hfewer o.few)] at hle
    rw [hopener] at hf
    exact reassemble_coded hrs hb hpos (by rw [h.scheme, Outgoing.scheme, hsc]) (by rw [h.scheme, Outgoing.scheme, hsc])
      (by rw [h.scheme, Outgoing.scheme, hsc]) o.short h.total (h.scheme ▸ hopener) hshards (h.id ▸ hf) hle

end Records

end Outgoing

namespace Receiver
variable {t : Config} {rs : ReedSolomon} {w u : Receiver} {a : Action} {ref : Nat} {o : Outgoing t rs} {cut : Nat → Int}
  {good : Bytes → Prop}

/-- What the receiver takes for the transfer is its sender's; the packets that a state takes are
    all cut to one size. --/
def Own (o : Outgoing t rs) (cut : Nat → Int) (w : Receiver) : Action → Prop
  | .forward pkt _ => pkt.id = o.id → o.Sent (cut ((w.table.get? pkt.id).getD w.objects.length)) pkt
  | .connect pkt => pkt.id = o.id → o.Opening pkt
  | .chunk c pkt => ∀ x ∈ w.conns[c]?, x.id = o.id → o.Sent (cut x.ref) pkt
  | _ => True

instance : ∀ a, Decidable (w.Own o cut a)
  | .forward _ _ | .connect _ => inferInstanceAs (Decidable (_ → _))
  | .chunk c _ => inferInstanceAs (Decidable (∀ x ∈ w.conns[c]?, _ → _))
  | .process _ | .dispatch _ | .delete _ | .ack _ | .eof _ | .fail _ | .finish _ | .close _ =>
    inferInstanceAs (Decidable True)

structure Yields (o : Outgoing t rs) (cut : Nat → Int) (good : Bytes → Prop) (w : Receiver) : Prop where
  state : ∀ st ∈ w.objects, st.id = o.id → st.total = o.total ∧ st.scheme = o.scheme ∧ st.stream = none
  call : ∀ x ∈ w.calls, x.pkt.id = o.id → o.Sent (cut x.ref) x.pkt ∧ ∀ data, x.phase = .delivering data → good data
  taken : ∀ e ∈ w.taken, e.id = o.id → o.Sent (cut e.ref) e.pkt
  dispatched : ∀ e ∈ w.dispatched, e.id = o.id → good e.data

abbrev Exact (o : Outgoing t rs) (cut : Nat → Int) (w : Receiver) : Prop := w.Yields o cut (· = o.data)

theorem yields_new : new.Yields o cut good := by
  constructor
  all_goals exact fun x hx => absurd hx not_mem_nil

theorem Yields.absorbed (h : w.Yields o cut good) (hrefs : w.Refs) (hof : w.Of ref o.id) :
    ∀ pkt ∈ w.absorbed ref, o.Sent (cut ref) pkt := by
  intro pkt hpkt
  obtain ⟨e, he, rfl, rfl⟩ := mem_absorbed.mp hpkt
  exact h.taken e he (Option.mem_unique (hrefs.taken e he) hof)

variable {st : State} {r : Nat}

theorem Yields.records (h : w.Yields o cut good) (hrefs : w.Refs) (hfilled : w.Filled) (hst : w.objects[ref]? = some st)
    (hid : st.id = o.id) {more : List Packet} (hmore : ∀ pkt ∈ more, o.Sent (cut ref) pkt) :
    o.Records (cut ref) (w.absorbed ref ++ more) (st.toTransferState.recordAll more).1 := by
  obtain ⟨htotal, hscheme, -⟩ := h.state st (mem_of_getElem? hst) hid
  refine ⟨hid, htotal, hscheme, fun pkt hpkt => ?_, ?_⟩
  · rcases mem_append.mp hpkt with hpkt | hpkt
    · exact h.absorbed hrefs (hid ▸ of_object hst) pkt hpkt
    · exact hmore pkt hpkt
  · rw [Buffers.recordAll_append, ← hfilled ref st hst]
    rfl

theorem Yields.setCall {c : Nat} {x : IngestCall} {phase : CallPhase} (h : w.Yields o cut good)
    (hx : w.calls[c]? = some x) (hphase : x.pkt.id = o.id → ∀ data, phase = .delivering data → good data) :
    (w.setCall c x phase).Yields o cut good := by
  refine ⟨h.state, fun y hy hid => ?_, h.taken, h.dispatched⟩
  rcases mem_or_eq_of_mem_set hy with hy | rfl
  · exact h.call y hy hid
  · exact ⟨(h.call x (mem_of_getElem? hx) hid).1, hphase hid⟩

theorem Yields.addCall {x : IngestCall} (h : w.Yields o cut good) (hsent : x.pkt.id = o.id → o.Sent (cut x.ref) x.pkt)
    (hphase : x.phase = .loaded) : ({ w with calls := w.calls ++ [x] } : Receiver).Yields o cut good := by
  refine ⟨h.state, fun y hy hid => ?_, h.taken, h.dispatched⟩
  rcases mem_append_single.mp hy with hy | rfl
  · exact h.call y hy hid
  · exact ⟨hsent hid, fun data hdata => by rw [hphase] at hdata; cases hdata⟩

theorem Yields.setObject (h : w.Yields o cut good)
    (hst : st.id = o.id → st.total = o.total ∧ st.scheme = o.scheme ∧ st.stream = none) :
    (w.setObject r st).Yields o cut good := by
  refine ⟨fun s hs hid => ?_, h.call, h.taken, h.dispatched⟩
  rcases mem_or_eq_of_mem_set hs with hs | rfl
  · exact h.state s hs hid
  · exact hst hid

theorem Yields.addObject (h : w.Yields o cut good)
    (hst : st.id = o.id → st.total = o.total ∧ st.scheme = o.scheme ∧ st.stream = none) :
    ({ w with objects := w.objects ++ [st] } : Receiver).Yields o cut good := by
  refine ⟨fun s hs hid => ?_, h.call, h.taken, h.dispatched⟩
  rcases mem_append_single.mp hs with hs | rfl
  · exact h.state s hs hid
  · exact hst hid

theorem Yields.take {pkt : Packet} {took : Bool} (h : w.Yields o cut good) (hsent : st.id = o.id → o.Sent (cut r) pkt) :
    ({ w with taken := st.takes r pkt took ++ w.taken } : Receiver).Yields o cut good := by
  refine ⟨h.state, h.call, fun e he hid => ?_, h.dispatched⟩
  rcases mem_append.mp he with he | he
  · obtain ⟨-, rfl⟩ := mem_takes he
    exact hsent hid
  · exact h.taken e he hid

theorem Yields.log {data : Bytes} (h : w.Yields o cut good) (hdata : st.id = o.id → good data) :
    (w.log r st data).Yields o cut good := by
  refine ⟨h.state, h.call, h.taken, fun e he hid => ?_⟩
  rcases mem_append_single.mp he with he | rfl
  · exact h.dispatched e he hid
  · exact hdata hid

theorem Steps.yields (hs : Steps t rs w a u) (hgood : ∀ ref pkts st data, o.Records (cut ref) pkts st →
      st.enoughToReassembleLocked ∨ st.isCompleteLocked → t.reassemble rs st = .ok data → good data)
    (hrefs : w.Refs) (hfilled : w.Filled) (hown : w.Own o cut a) (h : w.Yields o cut good) : u.Yields o cut good := by
  have hdone : ∀ {id : TransferID} {phase : CallPhase}, (∀ data, phase ≠ .delivering data) → id = o.id →
      ∀ data, phase = .delivering data → good data := fun hne _ data hdata => absurd hdata (hne data)
  cases hs with
  | @loaded pkt routed ref href =>
    have hown : pkt.id = o.id → o.Sent (cut ((w.table.get? pkt.id).getD w.objects.length)) pkt := hown
    rw [href] at hown
    exact h.addCall hown rfl
  | @created pkt routed hnone =>
    have hown : pkt.id = o.id → o.Sent (cut ((w.table.get? pkt.id).getD w.objects.length)) pkt := hown
    rw [hnone] at hown
    have hnew : ({ w with objects := w.objects ++ [newForwardedState pkt routed] } : Receiver).Yields o cut good :=
      h.addObject fun hid => ⟨(hown hid).opening.total, (hown hid).opening.scheme, rfl⟩
    have hcall := hnew.addCall (x := ⟨pkt, w.objects.length, .loaded⟩) hown rfl
    exact ⟨hcall.state, hcall.call, hcall.taken, hcall.dispatched⟩
  | @processed c x st st' phase hx hp hst hok =>
    have hid : st.id = x.pkt.id := (hrefs.call x (mem_of_getElem? hx)).id_eq hst
    have hsent : st.id = o.id → o.Sent (cut x.ref) x.pkt := fun he => (h.call x (mem_of_getElem? hx) (hid ▸ he)).1
    have hstate := h.state st (mem_of_getElem? hst)
    have hstate' : st'.id = o.id → st'.total = o.total ∧ st'.scheme = o.scheme ∧ st'.stream = none := by
      cases State.ingest_cases hok with
      | streamed hstream => exact fun he => absurd ((hsent he).opening.streaming.symm.trans hstream) (by decide)
      | late | kept | completed => exact hstate
    have hphase : x.pkt.id = o.id → ∀ data, phase = .delivering data → good data := by
      intro he data hdata
      subst hdata
      cases State.ingest_cases hok with
      | streamed _ hne => rcases hne with hne | hne <;> cases hne
      | completed _ _ henough hdata =>
        have hmore : ∀ pkt ∈ [x.pkt], o.Sent (cut x.ref) pkt := by
          intro pkt hpkt
          obtain rfl := mem_singleton.mp hpkt
          exact hsent (hid.trans he)
        exact hgood _ _ _ data (h.records hrefs hfilled hst (hid.trans he) hmore) (.inl henough) hdata
    exact ((h.setObject hstate').setCall hx hphase).take hsent
  | @dispatched c x st data hx hp hst =>
    have hid : st.id = x.pkt.id := (hrefs.call x (mem_of_getElem? hx)).id_eq hst
    have hlog : (w.log x.ref st data).Yields o cut good :=
      h.log fun he => (h.call x (mem_of_getElem? hx) (hid ▸ he)).2 data hp
    exact hlog.setCall hx (hdone fun data hne => nomatch hne)
  | @deleted c x hx hp =>
    have hset : (w.setCall c x .done).Yields o cut good := h.setCall hx (hdone fun data hne => nomatch hne)
    exact ⟨hset.state, hset.call, hset.taken, hset.dispatched⟩
  | @connected pkt hnone =>
    have hown : pkt.id = o.id → o.Opening pkt := hown
    have hnew : ({ w with objects := w.objects ++ [newDirectState pkt] } : Receiver).Yields o cut good :=
      h.addObject fun hid =>
      ⟨(hown hid).total, (hown hid).scheme, by simp [newDirectState, (hown hid).streaming]⟩
    exact ⟨hnew.state, hnew.call, hnew.taken, hnew.dispatched⟩
  | @chunked c x st st' pkt hx hp hst hok =>
    have hid : st.id = x.id := (hrefs.conn x (mem_of_getElem? hx)).id_eq hst
    have hown : ∀ x ∈ w.conns[c]?, x.id = o.id → o.Sent (cut x.ref) pkt := hown
    have hsent : st.id = o.id → o.Sent (cut x.ref) pkt := fun he => hown x hx (hid ▸ he)
    have hstate := h.state st (mem_of_getElem? hst)
    have hstate' : st'.id = o.id → st'.total = o.total ∧ st'.scheme = o.scheme ∧ st'.stream = none := by
      obtain ⟨sa, hsome, rfl⟩ | ⟨-, rfl⟩ := State.processChunk_cases hok
      · intro he
        rw [(hstate he).2.2] at hsome
        cases hsome
      · exact hstate
    have hset : ({ w.setObject x.ref st' with taken := st.takes x.ref pkt st.stream.isNone ++ w.taken } :
        Receiver).Yields o cut good :=
      (h.setObject hstate').take hsent
    exact ⟨hset.state, hset.call, hset.taken, hset.dispatched⟩
  | @delivered c x st data hx hp hst hstream hcomplete hdata =>
    have hnone : ∀ pkt ∈ [], o.Sent (cut x.ref) pkt := nofun
    have hlog : (w.log x.ref st data).Yields o cut good := h.log fun he =>
      hgood _ _ _ data (h.records hrefs hfilled hst he hnone) (.inr hcomplete) hdata
    exact ⟨hlog.state, hlog.call, hlog.taken, hlog.dispatched⟩
  | _ => exact ⟨h.state, h.call, h.taken, h.dispatched⟩

theorem exact_new : new.Exact o cut := yields_new

theorem Steps.exact (hs : Steps t rs w a u) (hrs : rs.Lawful) (hcut : ∀ ref, o.Cut (cut ref)) (hrefs : w.Refs)
    (hfilled : w.Filled) (hown : w.Own o cut a) (h : w.Exact o cut) : u.Exact o cut :=
  hs.yields (fun ref _ _ _ hrecords hready hok =>
    Except.ok.inj (hok.symm.trans (hrecords.reassembles hrs (hcut ref) hready)))
    hrefs hfilled hown h

end Receiver
end SyncSwarm.Transfer
