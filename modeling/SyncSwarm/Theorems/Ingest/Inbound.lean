import SyncSwarm.Transfer.Inbound
import SyncSwarm.Theorems.Ingest.Objects

/-! Who has a part in a transfer state. One that a connection created is what the packets of its history make of it. -/

namespace SyncSwarm.Transfer
open Lib Protocol Fragment List Option

namespace History
variable {h : History} {c : Nat} {p : SignedPacket} {st : State}

@[simp] theorem creator_disclose : (h.disclose c p st).creator = h.creator := by
  rw [disclose]
  split <;> rfl

@[simp] theorem absorbed_disclose : (h.disclose c p st).absorbed = h.absorbed := by
  rw [disclose]
  split <;> rfl

theorem mem_disclose {d : Nat × UInt32} (hd : d ∈ (h.disclose c p st).disclosed) : d ∈ h.disclosed ∨ d.1 = c := by
  rw [disclose] at hd
  split at hd
  · rcases mem_append.mp hd with hold | hnew
    · exact .inl hold
    · exact .inr (by rw [mem_singleton.mp hnew])
  · exact .inl hd

end History

namespace Inbound
variable {S : Signatures} {self : String} {t : Config} {rs : ReedSolomon} {n m : Inbound} {e : Event} {ref : Nat}
  {h : History} {first : SignedPacket}

/-! ### What a step does -/

def Quiet : Action → Prop
  | .connect _ | .chunk _ _ | .forward _ _ | .process _ => False
  | _ => True

theorem objects_of_quiet {w u : Receiver} {a : Action} (hs : Receiver.Steps t rs w a u) (hquiet : Quiet a) :
    u.objects = w.objects := by
  cases hs with
  | created | connected | processed | chunked => exact hquiet.elim
  | _ => rfl

/-- What each event can do. --/
inductive Steps (S : Signatures) (self : String) (t : Config) (rs : ReedSolomon) (n : Inbound) :
    Event → Inbound → Prop where
  | refused {p : SignedPacket} : Steps S self t rs n (.accept p) n
  | resumed {p : SignedPacket} {r : Nat} {st : State} : opensTransfer S self p = true →
    (p.resumable && p.streaming) = true →
    n.rx.table.get? p.id = some r →
    Steps S self t rs n (.accept p)
      { rx := { n.rx with conns := n.rx.conns ++ [⟨r, p.id, true, .reading⟩] }
        inits := n.inits ++ [p]
        histories := n.histories.modify r (·.disclose n.rx.conns.length p st) }
  | connected {p : SignedPacket} : opensTransfer S self p = true →
    ((p.resumable && p.streaming) = true → n.rx.table.get? p.id = none) →
    Steps S self t rs n (.accept p)
      { rx := { n.rx with
          objects := n.rx.objects ++ [newDirectState p.toPacket]
          table := n.rx.table.set p.id n.rx.objects.length
          conns := n.rx.conns ++ [⟨n.rx.objects.length, p.id, p.resumable && p.streaming, .reading⟩] }
        inits := n.inits ++ [p]
        histories :=
          n.histories ++ [{ creator := some p : History }.disclose n.rx.conns.length p (newDirectState p.toPacket)] }
  | chunked {c : Nat} {p : SignedPacket} {x : Conn} {st s : State} : p.verify S = true → n.rx.conns[c]? = some x →
    x.phase = .reading →
    n.rx.objects[x.ref]? = some st → st.processChunk t rs p.toPacket = .ok s →
    Steps S self t rs n (.read c p)
      { n with
        rx := { (n.rx.setObject x.ref s).setConn c x .acking with
          taken := st.takes x.ref p.toPacket st.stream.isNone ++ n.rx.taken }
        histories := n.histories.modify x.ref (·.absorb (.conn c p)) }
  | loaded {pkt : Packet} {routed : Bool} {r : Nat} : n.rx.table.get? pkt.id = some r →
    Steps S self t rs n (.other (.forward pkt routed))
      { n with rx := { n.rx with calls := n.rx.calls ++ [⟨pkt, r, .loaded⟩] } }
  | created {pkt : Packet} {routed : Bool} : n.rx.table.get? pkt.id = none →
    Steps S self t rs n (.other (.forward pkt routed))
      { n with
        rx := { n.rx with
          objects := n.rx.objects ++ [newForwardedState pkt routed]
          table := n.rx.table.set pkt.id n.rx.objects.length
          calls := n.rx.calls ++ [⟨pkt, n.rx.objects.length, .loaded⟩] }
        histories := n.histories ++ [{ creator := none }] }
  | processed {c : Nat} {x : IngestCall} {st s : State} {phase : CallPhase} : n.rx.calls[c]? = some x →
    x.phase = .loaded →
    n.rx.objects[x.ref]? = some st → st.ingest t rs x.pkt = .ok (s, phase) →
    Steps S self t rs n (.other (.process c))
      { n with
        rx := { (n.rx.setObject x.ref s).setCall c x phase with
          taken := st.takes x.ref x.pkt (!x.pkt.streaming && !st.delivered) ++ n.rx.taken }
        histories := n.histories.modify x.ref (·.absorb (.forwarded x.pkt)) }
  | quiet {ev : Event} {a : Action} {rx : Receiver} : Receiver.Steps t rs n.rx a rx → Quiet a →
    Steps S self t rs n ev { n with rx }

/-- The histories say how the states came about. --/
structure Recorded (S : Signatures) (t : Config) (rs : ReedSolomon) (n : Inbound) : Prop where
  refs : n.rx.Refs
  histories : n.histories.length = n.rx.objects.length
  inits : n.inits.length = n.rx.conns.length
  authentic : ∀ p ∈ n.inits, authentic S p = true
  /-- A state that a connection created is what its history makes of it. -/
  replays : ∀ (r : Nat) (hist : History) (p : SignedPacket) (st : State), n.histories[r]? = some hist →
    hist.creator = some p →
    n.rx.objects[r]? = some st → (newDirectState p.toPacket).absorbAll t rs hist.absorbed = .ok st

theorem recorded_new : new.Recorded S t rs where
  refs := Receiver.refs_new
  histories := rfl
  inits := rfl
  authentic _ hp := nomatch hp
  replays _ _ _ _ hh := nomatch hh

variable {rx : Receiver} {o : Origin} {st st' : State}

theorem accept_cases {p : SignedPacket} (hrec : n.Recorded S t rs) (hopens : opensTransfer S self p = true)
    (hstep : n.rx.step t rs (.connect p.toPacket) = some rx) : Steps S self t rs n (.accept p) (n.accepted p rx) := by
  rw [Receiver.step] at hstep
  split at hstep
  · cases hstep
  cases hstep
  rw [accepted, Receiver.connect]
  split
  next r hr =>
    split at hr
    next hkeep =>
      obtain ⟨st, hst⟩ : ∃ st, n.rx.objects[r]? = some st := ⟨_, getElem?_eq_getElem (hrec.refs.entry hr).lt⟩
      simp only [if_true, getElem?_concat_length, bind_some, hst, map_some, getD_some, hkeep]
      exact .resumed hopens hkeep hr
    · cases hr
  next hnone =>
    have hlen : ¬(n.rx.objects ++ [newDirectState p.toPacket]).length = n.rx.objects.length := by simp
    simp only [if_neg hlen, getElem?_concat_length, bind_some, map_some, getD_some]
    rw [← hrec.histories, modify_append_single, hrec.histories]
    refine .connected hopens fun hkeep => ?_
    rwa [if_pos hkeep] at hnone

theorem Steps.gone : Steps S self t rs n e { n with rx := { n.rx with down := true } } :=
  .quiet (Receiver.Steps.crashed (b := .eof 0)) trivial

theorem absorbed_of_up (hup : rx.down = false) :
    n.absorbed ref o rx = { n with rx, histories := n.histories.modify ref (·.absorb o) } := by
  rw [absorbed, if_neg (Bool.eq_false_iff.mp hup)]

theorem absorbed_of_down (hdown : rx.down = true) : n.absorbed ref o rx = { n with rx } := by
  rw [absorbed, if_pos hdown]

theorem read_cases {c : Nat} {p : SignedPacket} {x : Conn} (hverify : p.verify S = true)
    (hx : n.rx.conns[c]? = some x) (hstep : n.rx.step t rs (.chunk c p.toPacket) = some rx) :
    Steps S self t rs n (.read c p) (n.absorbed x.ref (.conn c p) rx) := by
  have hup := Receiver.step_up hstep
  cases hdown : rx.down with
  | false =>
    rw [absorbed_of_up hdown]
    cases Receiver.step_cases hstep with
    | chunked hx' hp hst hok =>
      cases hx.symm.trans hx'
      exact .chunked hverify hx hp hst hok
    | crashed => cases hdown
  | true =>
    rw [absorbed_of_down hdown]
    cases Receiver.step_cases hstep with
    | chunked => exact absurd (hup.symm.trans hdown) (by decide)
    | crashed => exact .gone

theorem process_cases {c : Nat} {x : IngestCall} (hx : n.rx.calls[c]? = some x)
    (hstep : n.rx.step t rs (.process c) = some rx) :
    Steps S self t rs n (.other (.process c)) (n.absorbed x.ref (.forwarded x.pkt) rx) := by
  have hup := Receiver.step_up hstep
  cases hdown : rx.down with
  | false =>
    rw [absorbed_of_up hdown]
    cases Receiver.step_cases hstep with
    | processed hx' hp hst hok =>
      cases hx.symm.trans hx'
      exact .processed hx hp hst hok
    | crashed => cases hdown
  | true =>
    rw [absorbed_of_down hdown]
    cases Receiver.step_cases hstep with
    | processed => exact absurd (hup.symm.trans hdown) (by decide)
    | crashed => exact .gone

theorem step_cases (hrec : n.Recorded S t rs) (hstep : n.step S self t rs e = some m) : Steps S self t rs n e m := by
  have hquiet : ∀ {a : Action}, ((n.rx.step t rs a).map fun rx => { n with rx }) = some m → Quiet a →
      Steps S self t rs n e m := by
    intro a hmap ha
    obtain ⟨rx, hrx, rfl⟩ := map_eq_some_iff.mp hmap
    exact .quiet (Receiver.step_cases hrx) ha
  cases e with
  | accept p =>
    rw [step] at hstep
    split at hstep
    next hopens =>
      obtain ⟨rx, hrx, rfl⟩ := map_eq_some_iff.mp hstep
      exact accept_cases hrec hopens hrx
    · cases hstep
      exact .refused
  | read c p =>
    rw [step] at hstep
    split at hstep
    next hverify =>
      obtain ⟨x, hx, hstep⟩ := bind_eq_some_iff.mp hstep
      obtain ⟨rx, hrx, rfl⟩ := map_eq_some_iff.mp hstep
      exact read_cases hverify hx hrx
    · exact hquiet hstep trivial
  | other a =>
    cases a with
    | connect pkt | chunk c pkt => cases hstep
    | forward pkt routed =>
      obtain ⟨rx, hrx, rfl⟩ := map_eq_some_iff.mp hstep
      cases Receiver.step_cases hrx with
      | loaded href =>
        rw [if_pos rfl]
        exact .loaded href
      | created hnone =>
        rw [if_neg (by simp)]
        exact .created hnone
      | crashed =>
        rw [if_pos rfl]
        exact .gone
    | process c =>
      obtain ⟨x, hx, hstep⟩ := bind_eq_some_iff.mp hstep
      obtain ⟨rx, hrx, rfl⟩ := map_eq_some_iff.mp hstep
      exact process_cases hx hrx
    | dispatch | delete | ack | eof | fail | finish | close => exact hquiet hstep trivial

/-! ### Histories -/

theorem Steps.node (hs : Steps S self t rs n e m) : m.rx = n.rx ∨ ∃ a, Receiver.Steps t rs n.rx a m.rx := by
  cases hs with
  | refused => exact .inl rfl
  | resumed _ hkeep href => exact .inr ⟨_, .resumed hkeep href⟩
  | @connected p _ hnone => exact .inr ⟨.connect p.toPacket, .connected hnone⟩
  | chunked _ hx hp hst hok => exact .inr ⟨_, .chunked hx hp hst hok⟩
  | @loaded pkt routed _ href => exact .inr ⟨.forward pkt routed, .loaded href⟩
  | created hnone => exact .inr ⟨_, .created hnone⟩
  | processed hx hp hst hok => exact .inr ⟨_, .processed hx hp hst hok⟩
  | quiet hrx _ => exact .inr ⟨_, hrx⟩

theorem Steps.refs (hs : Steps S self t rs n e m) (hrefs : n.rx.Refs) : m.rx.Refs := by
  rcases hs.node with hsame | ⟨a, hrx⟩
  · rwa [hsame]
  · exact hrx.refs hrefs

inductive Grows (S : Signatures) (n m : Inbound) (ref : Nat) (h : History) : Event → History → Prop where
  | same {ev : Event} : Grows S n m ref h ev h
  | told {p : SignedPacket} {st : State} : (p.resumable && p.streaming) = true → n.rx.table.get? p.id = some ref →
    m.inits = n.inits ++ [p] → Grows S n m ref h (.accept p) (h.disclose n.rx.conns.length p st)
  | read {c : Nat} {p : SignedPacket} {x : Conn} : p.verify S = true → n.rx.conns[c]? = some x → x.ref = ref →
    Grows S n m ref h (.read c p) (h.absorb (.conn c p))
  | ingested {c : Nat} {x : IngestCall} : x ∈ n.rx.calls → x.ref = ref →
    Grows S n m ref h (.other (.process c)) (h.absorb (.forwarded x.pkt))

theorem Steps.history {hist : History} (hs : Steps S self t rs n e m) (hh : m.histories[ref]? = some hist) :
    (∃ h, n.histories[ref]? = some h ∧ Grows S n m ref h e hist) ∨ ref = n.histories.length ∧ hist.absorbed = [] ∧
      (hist.creator = none ∧ (∃ pkt routed, e = .other (.forward pkt routed)) ∨
        ∃ p, e = .accept p ∧ m.inits = n.inits ++ [p] ∧ hist.creator = some p ∧
          ∀ d ∈ hist.disclosed, d.1 = n.rx.conns.length) := by
  cases hs with
  | refused | loaded | quiet => exact .inl ⟨hist, hh, .same⟩
  | resumed _ hkeep href =>
    obtain ⟨h, hold, ⟨rfl, rfl⟩ | ⟨-, rfl⟩⟩ := getElem?_modify_eq_some hh
    · exact .inl ⟨h, hold, .told hkeep href rfl⟩
    · exact .inl ⟨_, hold, .same⟩
  | @connected p =>
    rcases getElem?_append_single hh with hold | ⟨rfl, rfl⟩
    · exact .inl ⟨hist, hold, .same⟩
    · refine .inr ⟨rfl, History.absorbed_disclose, .inr ⟨p, rfl, rfl, History.creator_disclose, fun d hd => ?_⟩⟩
      exact (History.mem_disclose hd).resolve_left not_mem_nil
  | chunked hverify hx =>
    obtain ⟨h, hold, ⟨hr, rfl⟩ | ⟨-, rfl⟩⟩ := getElem?_modify_eq_some hh
    · exact .inl ⟨h, hold, .read hverify hx hr⟩
    · exact .inl ⟨_, hold, .same⟩
  | created =>
    rcases getElem?_append_single hh with hold | ⟨rfl, rfl⟩
    · exact .inl ⟨hist, hold, .same⟩
    · exact .inr ⟨rfl, rfl, .inl ⟨rfl, _, _, rfl⟩⟩
  | processed hx =>
    obtain ⟨h, hold, ⟨hr, rfl⟩ | ⟨-, rfl⟩⟩ := getElem?_modify_eq_some hh
    · exact .inl ⟨h, hold, .ingested (mem_of_getElem? hx) hr⟩
    · exact .inl ⟨_, hold, .same⟩

theorem absorbAll_append {os : List Origin} (h : st.absorbAll t rs os = .ok st') :
    st.absorbAll t rs (os ++ [o]) = st'.absorb t rs o := by
  rw [State.absorbAll] at h ⊢
  rw [foldlM_append, h]
  exact bind_pure (st'.absorb t rs o)

theorem absorb_kind (h : st.absorb t rs o = .ok st') : st'.kind = st.kind := by
  cases o with
  | conn c p => exact State.processChunk_kind h
  | forwarded pkt =>
    obtain ⟨⟨s, phase⟩, hok, rfl⟩ := map_eq_ok.mp h
    exact (State.ingest_cases hok).kind_eq

theorem absorbAll_kind {os : List Origin} (h : st.absorbAll t rs os = .ok st') : st'.kind = st.kind := by
  induction os generalizing st with
  | nil =>
    cases h
    rfl
  | cons o os ih =>
    rw [State.absorbAll, foldlM_cons] at h
    obtain ⟨s, hone, hrest⟩ := bind_eq_ok.mp h
    exact (ih hrest).trans (absorb_kind hone)

theorem Recorded.of (hrec : n.Recorded S t rs) (hh : n.histories[ref]? = some h) (hp : h.creator = some first) :
    n.rx.Of ref first.id := by
  have hlt : ref < n.rx.objects.length := hrec.histories ▸ lt_of_getElem? hh
  obtain ⟨st, hst⟩ : ∃ st, n.rx.objects[ref]? = some st := ⟨_, getElem?_eq_getElem hlt⟩
  have hkind := absorbAll_kind (hrec.replays ref h first st hh hp hst)
  have hid : st.id = first.id := congrArg Kind.id hkind
  exact hid ▸ Receiver.of_object hst

theorem Steps.replays (hs : Steps S self t rs n e m) (hrec : n.Recorded S t rs) {hist : History} {st : State}
    (hh : m.histories[ref]? = some hist) (hp : hist.creator = some first) (hst : m.rx.objects[ref]? = some st) :
    (newDirectState first.toPacket).absorbAll t rs hist.absorbed = .ok st := by
  cases hs with
  | refused | loaded => exact hrec.replays ref hist first st hh hp hst
  | resumed =>
    obtain ⟨h, hold, ⟨-, rfl⟩ | ⟨-, rfl⟩⟩ := getElem?_modify_eq_some hh
    · rw [History.creator_disclose] at hp
      rw [History.absorbed_disclose]
      exact hrec.replays ref h first st hold hp hst
    · exact hrec.replays ref _ first st hold hp hst
  | connected =>
    rcases getElem?_append_single hh with hold | ⟨rfl, rfl⟩
    · rw [getElem?_append_left (hrec.histories ▸ lt_of_getElem? hold)] at hst
      exact hrec.replays ref hist first st hold hp hst
    · rw [hrec.histories, getElem?_concat_length] at hst
      rw [History.creator_disclose] at hp
      cases hst
      cases hp
      rw [History.absorbed_disclose]
      rfl
  | chunked _ _ _ hx hok =>
    obtain ⟨h, hold, ⟨hr, rfl⟩ | ⟨hr, rfl⟩⟩ := getElem?_modify_eq_some hh
    · obtain ⟨-, rfl⟩ | ⟨hne, -⟩ := getElem?_set_eq_some hst
      · exact (absorbAll_append (hrec.replays _ h first _ (hr ▸ hold) hp hx)).trans hok
      · exact absurd hr hne
    · obtain ⟨heq, -⟩ | ⟨-, hst⟩ := getElem?_set_eq_some hst
      · exact absurd heq hr
      · exact hrec.replays ref _ first st hold hp hst
  | created =>
    rcases getElem?_append_single hh with hold | ⟨rfl, rfl⟩
    · rw [getElem?_append_left (hrec.histories ▸ lt_of_getElem? hold)] at hst
      exact hrec.replays ref hist first st hold hp hst
    · cases hp
  | processed _ _ hx hok =>
    obtain ⟨h, hold, ⟨hr, rfl⟩ | ⟨hr, rfl⟩⟩ := getElem?_modify_eq_some hh
    · obtain ⟨-, rfl⟩ | ⟨hne, -⟩ := getElem?_set_eq_some hst
      · refine (absorbAll_append (hrec.replays _ h first _ (hr ▸ hold) hp hx)).trans ?_
        rw [State.absorb, hok]
        rfl
      · exact absurd hr hne
    · obtain ⟨heq, -⟩ | ⟨-, hst⟩ := getElem?_set_eq_some hst
      · exact absurd heq hr
      · exact hrec.replays ref _ first st hold hp hst
  | quiet hrx hquiet => exact hrec.replays ref hist first st hh hp (objects_of_quiet hrx hquiet ▸ hst)

theorem Steps.inits (hs : Steps S self t rs n e m) :
    m.inits = n.inits ∧ m.rx.conns.length = n.rx.conns.length ∨
      ∃ p, e = .accept p ∧ opensTransfer S self p = true ∧ m.inits = n.inits ++ [p] ∧
        m.rx.conns.length = n.rx.conns.length + 1 := by
  cases hs with
  | refused | loaded | created | processed => exact .inl ⟨rfl, rfl⟩
  | resumed hopens | connected hopens => exact .inr ⟨_, rfl, hopens, rfl, length_append⟩
  | chunked => exact .inl ⟨rfl, length_set⟩
  | quiet hrx hquiet =>
    refine .inl ⟨rfl, ?_⟩
    cases hrx with
    | resumed | connected | chunked => exact hquiet.elim
    | acked | ended | failed | delivered | undelivered | kept | closed => exact length_set
    | _ => rfl

theorem Steps.histories (hs : Steps S self t rs n e m) (hrec : n.Recorded S t rs) :
    m.histories.length = m.rx.objects.length := by
  have hold := hrec.histories
  cases hs with
  | refused | loaded => exact hold
  | resumed => exact (length_modify _ _ _).trans hold
  | connected | created => rw [length_append, length_append, hold]; rfl
  | chunked | processed => rw [length_modify, hold]; exact length_set.symm
  | quiet hrx hquiet => rw [objects_of_quiet hrx hquiet]; exact hold

theorem Steps.recorded (hs : Steps S self t rs n e m) (hrec : n.Recorded S t rs) : m.Recorded S t rs where
  refs := hs.refs hrec.refs
  histories := hs.histories hrec
  inits := by
    rcases hs.inits with ⟨hinits, hconns⟩ | ⟨p, -, -, hinits, hconns⟩
    · rw [hinits, hconns, hrec.inits]
    · rw [hinits, hconns, length_append, hrec.inits]
      rfl
  authentic q hq := by
    rcases hs.inits with ⟨hinits, -⟩ | ⟨p, -, hopens, hinits, -⟩
    · exact hrec.authentic q (hinits ▸ hq)
    · rw [hinits] at hq
      rcases mem_append.mp hq with hold | hnew
      · exact hrec.authentic q hold
      · rw [opensTransfer, Bool.and_eq_true, Bool.and_eq_true] at hopens
        rw [mem_singleton.mp hnew]
        exact hopens.1.1
  replays _ _ _ _ := hs.replays hrec

/-! ### Whose packets a state absorbs -/

section Owned
variable {Covers : SignedPacket → Prop} {Same Good : SignedPacket → SignedPacket → Prop}

/-- To a state that a connection created with a packet that `Covers` only the packets of connections come whose first
    packet is the `Same`, and these packets are `Good`. --/
def Bound (S : Signatures) (Covers : SignedPacket → Prop) (Same Good : SignedPacket → SignedPacket → Prop)
    (n : Inbound) : Event → Prop
  | .accept p => (p.resumable && p.streaming) = true → ∀ r ∈ n.rx.table.get? p.id, ∀ h ∈ n.histories[r]?,
    ∀ first ∈ h.creator,
      Covers first → Same first p
  | .read c p => p.verify S = true → ∀ init ∈ n.inits[c]?, Good init p
  | .other (.forward pkt _) => ∀ r ∈ n.rx.table.get? pkt.id, ∀ h ∈ n.histories[r]?, ∀ first ∈ h.creator, ¬Covers first
  | .other _ => True

structure Covered (Covers : SignedPacket → Prop) (n : Inbound) (r : Nat) (hist : History) (p : SignedPacket) :
    Prop where
  place : n.histories[r]? = some hist
  creator : hist.creator = some p
  covers : Covers p

structure Owned (S : Signatures) (t : Config) (rs : ReedSolomon) (Covers : SignedPacket → Prop)
    (Same Good : SignedPacket → SignedPacket → Prop)
    (n : Inbound) : Prop where
  calls : ∀ (x : IngestCall) (hist : History) (p : SignedPacket), x ∈ n.rx.calls → ¬n.Covered Covers x.ref hist p
  conns : ∀ (c : Nat) (x : Conn) (init : SignedPacket) (hist : History) (p : SignedPacket), n.rx.conns[c]? = some x →
    n.inits[c]? = some init →
    n.Covered Covers x.ref hist p → Same p init
  absorbed : ∀ (r : Nat) (hist : History) (p : SignedPacket), n.Covered Covers r hist p → ∀ o ∈ hist.absorbed,
    ∃ c q init, o = .conn c q ∧ n.inits[c]? = some init ∧ Same p init ∧ q.verify S = true ∧ Good init q
  disclosed : ∀ (r : Nat) (hist : History) (p : SignedPacket), n.Covered Covers r hist p → ∀ d ∈ hist.disclosed,
    ∃ init, n.inits[d.1]? = some init ∧ Same p init
  dispatched : ∀ (d : Dispatch) (hist : History) (p : SignedPacket), d ∈ n.rx.dispatched →
    n.Covered Covers d.ref hist p →
    ∃ os st, os <+: hist.absorbed ∧ (newDirectState p.toPacket).absorbAll t rs os = .ok st ∧
      t.reassemble rs st.toTransferState = .ok d.data

theorem owned_new : Owned S t rs Covers Same Good new where
  calls _ _ _ hx := nomatch hx
  conns _ _ _ _ _ hx := nomatch hx
  absorbed _ _ _ hc := nomatch hc.place
  disclosed _ _ _ hc := nomatch hc.place
  dispatched _ _ _ hd := nomatch hd

variable {hist : History}

theorem Grows.creator (hg : Grows S n m ref h e hist) : hist.creator = h.creator := by
  cases hg with
  | same | read | ingested => rfl
  | told => exact History.creator_disclose

theorem Grows.absorbed_prefix (hg : Grows S n m ref h e hist) : h.absorbed <+: hist.absorbed := by
  cases hg with
  | same => exact prefix_rfl
  | told => exact (congrArg (h.absorbed <+: ·) History.absorbed_disclose).mpr prefix_rfl
  | read | ingested => exact prefix_append _ _

theorem Steps.init_at {c : Nat} {p : SignedPacket} (hs : Steps S self t rs n e m) (hp : n.inits[c]? = some p) :
    m.inits[c]? = some p := by
  rcases hs.inits with ⟨hinits, -⟩ | ⟨q, -, -, hinits, -⟩
  · rwa [hinits]
  · rw [hinits]
    exact getElem?_mono (prefix_append _ _) hp

theorem Steps.covered (hs : Steps S self t rs n e m) (hc : m.Covered Covers ref hist first) :
    (∃ h, n.Covered Covers ref h first ∧ Grows S n m ref h e hist) ∨ ref = n.histories.length ∧ hist.absorbed = [] ∧
      e = .accept first ∧ m.inits = n.inits ++ [first] ∧ ∀ d ∈ hist.disclosed, d.1 = n.rx.conns.length := by
  rcases hs.history hc.place with ⟨h, hh, hg⟩ | ⟨href, hnil, ⟨hnone, -⟩ | ⟨p, he, hinits, hp, hd⟩⟩
  · exact .inl ⟨h, ⟨hh, hg.creator ▸ hc.creator, hc.covers⟩, hg⟩
  · exact absurd (hnone.symm.trans hc.creator) nofun
  · cases hp.symm.trans hc.creator
    exact .inr ⟨href, hnil, he, hinits, hd⟩

theorem Owned.absorbed_step (h : Owned S t rs Covers Same Good n) (hrec : n.Recorded S t rs)
    (hs : Steps S self t rs n e m) (hbound : n.Bound S Covers Same Good e) (hc : m.Covered Covers ref hist first)
    {o : Origin} (ho : o ∈ hist.absorbed) :
    ∃ c q init, o = .conn c q ∧ m.inits[c]? = some init ∧ Same first init ∧ q.verify S = true ∧ Good init q := by
  rcases hs.covered hc with ⟨h₀, hc₀, hg⟩ | ⟨-, hnil, -⟩
  · have hold : o ∈ h₀.absorbed → ∃ c q init, o = .conn c q ∧ m.inits[c]? = some init ∧ Same first init ∧
        q.verify S = true ∧ Good init q :=
      fun ho => let ⟨c, q, init, heq, hinit, hrest⟩ := h.absorbed ref h₀ first hc₀ o ho
        ⟨c, q, init, heq, hs.init_at hinit, hrest⟩
    cases hg with
    | same => exact hold ho
    | told => exact hold (History.absorbed_disclose ▸ ho)
    | @read c q x hverify hx hr =>
      rcases mem_append.mp ho with ho | ho
      · exact hold ho
      · have hlt : c < n.inits.length := hrec.inits ▸ lt_of_getElem? hx
        obtain ⟨init, hinit⟩ : ∃ init, n.inits[c]? = some init := ⟨_, getElem?_eq_getElem hlt⟩
        refine ⟨c, q, init, mem_singleton.mp ho, hs.init_at hinit, ?_, hverify, hbound hverify init hinit⟩
        exact h.conns c x init h₀ first hx hinit (hr ▸ hc₀)
    | @ingested c x hx hr => exact absurd (hr ▸ hc₀) (h.calls x h₀ first hx)
  · rw [hnil] at ho
    cases ho

theorem Owned.disclosed_step (h : Owned S t rs Covers Same Good n) (hrefl : ∀ p, Same p p) (hrec : n.Recorded S t rs)
    (hs : Steps S self t rs n e m) (hbound : n.Bound S Covers Same Good e) (hc : m.Covered Covers ref hist first)
    {d : Nat × UInt32} (hd : d ∈ hist.disclosed) : ∃ init, m.inits[d.1]? = some init ∧ Same first init := by
  rcases hs.covered hc with ⟨h₀, hc₀, hg⟩ | ⟨-, -, -, hinits, hnew⟩
  · have hold : d ∈ h₀.disclosed → ∃ init, m.inits[d.1]? = some init ∧ Same first init :=
      fun hd => let ⟨init, hinit, hsame⟩ := h.disclosed ref h₀ first hc₀ d hd
        ⟨init, hs.init_at hinit, hsame⟩
    cases hg with
    | same | read | ingested => exact hold hd
    | @told p st hkeep href hinits =>
      rcases History.mem_disclose hd with hd | hd
      · exact hold hd
      · refine ⟨p, ?_, hbound hkeep ref href h₀ hc₀.place first hc₀.creator hc₀.covers⟩
        rw [hd, hinits, ← hrec.inits, getElem?_concat_length]
  · refine ⟨first, ?_, hrefl first⟩
    rw [hnew d hd, hinits, ← hrec.inits, getElem?_concat_length]

theorem Steps.conn_init {c : Nat} {x : Conn} {init : SignedPacket} (hs : Steps S self t rs n e m)
    (hrec : n.Recorded S t rs) (hx : m.rx.conns[c]? = some x) (hinit : m.inits[c]? = some init) :
    (∃ y, n.rx.conns[c]? = some y ∧ y.ref = x.ref ∧ n.inits[c]? = some init) ∨ e = .accept init ∧
      ((init.resumable && init.streaming) = true ∧ n.rx.table.get? init.id = some x.ref ∨
        x.ref = n.histories.length) := by
  have hold : ∀ {p : SignedPacket} {y : Conn}, n.rx.conns[c]? = some y → (n.inits ++ [p])[c]? = some init →
      n.inits[c]? = some init := by
    intro p y hy hinit
    rwa [getElem?_append_left (hrec.inits ▸ lt_of_getElem? hy)] at hinit
  have hnew : ∀ {p : SignedPacket}, c = n.rx.conns.length → (n.inits ++ [p])[c]? = some init → p = init := by
    intro p hc hinit
    rw [hc, ← hrec.inits, getElem?_concat_length] at hinit
    exact Option.some.inj hinit
  cases hs with
  | refused | loaded | created | processed => exact .inl ⟨x, hx, rfl, hinit⟩
  | resumed _ hkeep href =>
    rcases getElem?_append_single hx with hx | ⟨hc, rfl⟩
    · exact .inl ⟨x, hx, rfl, hold hx hinit⟩
    · obtain rfl := hnew hc hinit
      exact .inr ⟨rfl, .inl ⟨hkeep, href⟩⟩
  | connected =>
    rcases getElem?_append_single hx with hx | ⟨hc, rfl⟩
    · exact .inl ⟨x, hx, rfl, hold hx hinit⟩
    · obtain rfl := hnew hc hinit
      exact .inr ⟨rfl, .inr hrec.histories.symm⟩
  | chunked _ hy =>
    obtain ⟨rfl, rfl⟩ | ⟨-, hx⟩ := getElem?_set_eq_some hx
    · exact .inl ⟨_, hy, rfl, hinit⟩
    · exact .inl ⟨x, hx, rfl, hinit⟩
  | quiet hrx hquiet =>
    obtain ⟨y, hy, href, -⟩ | ⟨-, pkt, rfl, -⟩ := hrx.conn_at hx
    · exact .inl ⟨y, hy, href, hinit⟩
    · exact hquiet.elim

theorem Steps.call {x : IngestCall} (hs : Steps S self t rs n e m) (hrec : n.Recorded S t rs) (hx : x ∈ m.rx.calls) :
    (∃ y ∈ n.rx.calls, y.ref = x.ref) ∨ ∃ pkt routed, e = .other (.forward pkt routed) ∧
      (n.rx.table.get? pkt.id = some x.ref ∨ x.ref = n.histories.length) := by
  cases hs with
  | loaded href =>
    rcases mem_append_single.mp hx with hx | rfl
    · exact .inl ⟨x, hx, rfl⟩
    · exact .inr ⟨_, _, rfl, .inl href⟩
  | created =>
    rcases mem_append_single.mp hx with hx | rfl
    · exact .inl ⟨x, hx, rfl⟩
    · exact .inr ⟨_, _, rfl, .inr hrec.histories.symm⟩
  | processed hy =>
    rcases mem_or_eq_of_mem_set hx with hx | rfl
    · exact .inl ⟨x, hx, rfl⟩
    · exact .inl ⟨_, mem_of_getElem? hy, rfl⟩
  | quiet hrx hquiet =>
    obtain ⟨y, hy, href, -⟩ | ⟨routed, rfl, -⟩ := hrx.mem_calls hx
    · exact .inl ⟨y, hy, href⟩
    · exact hquiet.elim
  | _ => exact .inl ⟨x, hx, rfl⟩

theorem Steps.dispatch {d : Dispatch} (hs : Steps S self t rs n e m) (hd : d ∈ m.rx.dispatched) :
    d ∈ n.rx.dispatched ∨ m.histories = n.histories ∧ ((∃ x ∈ n.rx.calls, x.ref = d.ref) ∨
      ∃ st, n.rx.objects[d.ref]? = some st ∧ t.reassemble rs st.toTransferState = .ok d.data) := by
  cases hs with
  | quiet hrx _ =>
    cases hrx with
    | dispatched hx =>
      refine (mem_append.mp hd).imp_right fun hnew => ⟨rfl, .inl ⟨_, mem_of_getElem? hx, ?_⟩⟩
      rw [mem_singleton.mp hnew]
    | @delivered c x st data _ _ hst _ _ hok =>
      refine (mem_append.mp hd).imp_right fun hnew => ⟨rfl, .inr ⟨st, ?_⟩⟩
      rw [mem_singleton.mp hnew]
      exact ⟨hst, hok⟩
    | _ => exact .inl hd
  | _ => exact .inl hd

theorem Covered.lt (hc : n.Covered Covers ref hist first) : ref < n.histories.length :=
  (lt_of_getElem? hc.place)

theorem Owned.step (h : Owned S t rs Covers Same Good n) (hrefl : ∀ p, Same p p) (hrec : n.Recorded S t rs)
    (hs : Steps S self t rs n e m) (hbound : n.Bound S Covers Same Good e) : Owned S t rs Covers Same Good m where
  calls x hist p hx hc := by
    rcases hs.covered hc with ⟨h₀, hc₀, -⟩ | ⟨href, -, he, -⟩
    · rcases hs.call hrec hx with ⟨y, hy, hyref⟩ | ⟨pkt, routed, rfl, htable | hlen⟩
      · exact h.calls y h₀ p hy (hyref ▸ hc₀)
      · exact hbound x.ref htable h₀ hc₀.place p hc₀.creator hc₀.covers
      · exact absurd (hlen ▸ hc₀.lt) (Nat.lt_irrefl _)
    · rcases hs.call hrec hx with ⟨y, hy, hyref⟩ | ⟨pkt, routed, heq, -⟩
      · have hlt := (hrec.refs.call y hy).lt
        rw [hyref, href, hrec.histories] at hlt
        exact Nat.lt_irrefl _ hlt
      · exact absurd (he.symm.trans heq) nofun
  conns c x init hist p hx hinit hc := by
    rcases hs.covered hc with ⟨h₀, hc₀, -⟩ | ⟨href, -, he, -⟩
    · rcases hs.conn_init hrec hx hinit with ⟨y, hy, hyref, hyinit⟩ | ⟨rfl, ⟨hkeep, htable⟩ | hlen⟩
      · exact h.conns c y init h₀ p hy hyinit (hyref ▸ hc₀)
      · exact hbound hkeep x.ref htable h₀ hc₀.place p hc₀.creator hc₀.covers
      · exact absurd (hlen ▸ hc₀.lt) (Nat.lt_irrefl _)
    · rcases hs.conn_init hrec hx hinit with ⟨y, hy, hyref, -⟩ | ⟨heq, -⟩
      · have hlt := (hrec.refs.conn y (mem_of_getElem? hy)).lt
        rw [hyref, href, hrec.histories] at hlt
        exact absurd hlt (Nat.lt_irrefl _)
      · obtain rfl := Event.accept.inj (he.symm.trans heq)
        exact hrefl p
  absorbed _ _ _ hc _ ho := h.absorbed_step hrec hs hbound hc ho
  disclosed _ _ _ hc _ hd := h.disclosed_step hrefl hrec hs hbound hc hd
  dispatched d hist p hd hc := by
    rcases hs.covered hc with ⟨h₀, hc₀, hg⟩ | ⟨href, -⟩
    · rcases hs.dispatch hd with hold | ⟨hsame, ⟨x, hx, hxref⟩ | ⟨st, hst, hok⟩⟩
      · obtain ⟨os, st, hos, hrest⟩ := h.dispatched d h₀ p hold hc₀
        exact ⟨os, st, hos.trans hg.absorbed_prefix, hrest⟩
      · exact absurd (hxref ▸ hc₀) (h.calls x h₀ p hx)
      · cases (hsame ▸ hc.place).symm.trans hc₀.place
        exact ⟨hist.absorbed, st, prefix_rfl, hrec.replays d.ref hist p st hc₀.place hc₀.creator hst, hok⟩
    · have hlt : d.ref < n.rx.objects.length := by
        rcases hs.dispatch hd with hold | ⟨-, ⟨x, hx, hxref⟩ | ⟨st, hst, -⟩⟩
        · exact (hrec.refs.dispatched d hold).lt
        · exact hxref ▸ (hrec.refs.call x hx).lt
        · exact lt_of_getElem? hst
      rw [href, hrec.histories] at hlt
      exact absurd hlt (Nat.lt_irrefl _)

end Owned
end Inbound
end SyncSwarm.Transfer
