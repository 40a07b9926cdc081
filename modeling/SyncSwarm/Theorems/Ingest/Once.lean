import SyncSwarm.Theorems.Ingest.Outgoing

/-! How often a transfer is dispatched. A state dispatches once at most, but a transfer may have several states. -/

namespace SyncSwarm.Transfer
open Lib Protocol Fragment List Option

/-! ### Fragments that come twice -/

def repeated (n : Nat) (pkts : List Packet) : List Nat := (List.range n).filter fun i => 2 ≤ (placesOf i pkts).count 0

namespace Plan
variable {plan plan' : Plan} {pkts pkts' first second : List Packet}

theorem done_subset (h : pkts ⊆ pkts') : plan.done pkts ⊆ plan.done pkts' := by
  intro i hi
  have hps := getElem?_eq_getElem (lt_of_mem_done hi)
  rw [mem_done hps] at hi ⊢
  intro k hk
  obtain ⟨pkt, hpkt, heq⟩ := mem_map.mp (hi k hk)
  obtain ⟨hmem, hindex⟩ := mem_filter.mp hpkt
  exact mem_map.mpr ⟨pkt, mem_filter.mpr ⟨h hmem, hindex⟩, heq⟩

theorem length_done_mono (h : pkts ⊆ pkts') : (plan.done pkts).length ≤ (plan.done pkts').length :=
  (subperm_of_subset (plan.nodup_done pkts) (done_subset h)).length_le

theorem count_of_done {i : Nat} (h : i ∈ plan.done pkts) : 0 < (placesOf i pkts).count 0 := by
  have hlt := lt_of_mem_done h
  have hpos := length_pos_iff.mpr (plan.nonempty _ (getElem_mem hlt))
  exact count_pos_iff.mpr ((mem_done (getElem?_eq_getElem hlt)).mp h 0 hpos)

theorem length_done (plan : Plan) (pkts : List Packet) : (plan.done pkts).length =
    (List.range plan.parts.length).countP fun i => decide (i ∈ plan.done pkts) := by
  rw [countP_eq_length_filter, done]
  refine congrArg List.length (filter_congr fun i hi => ?_)
  simp [hi]

theorem done_add_done_le {n : Nat} (hn : plan.parts.length = n) (hn' : plan'.parts.length = n)
    (h : ∀ i, (placesOf i first).count 0 + (placesOf i second).count 0 ≤ (placesOf i pkts).count 0) :
    (plan.done first).length + (plan'.done second).length ≤ n + (repeated n pkts).length := by
  rw [length_done, length_done, hn, hn', repeated, ← countP_eq_length_filter]
  have hle := countP_add_le (l := List.range n) (p := fun i => decide (i ∈ plan.done first))
    (q := fun i => decide (i ∈ plan'.done second)) (r := fun _ => true)
      (s := fun i => decide (2 ≤ (placesOf i pkts).count 0))
    (fun _ _ _ => rfl) ?_
  · rwa [countP_true, length_range] at hle
  intro i _ hfirst hsecond
  have hone := count_of_done (of_decide_eq_true hfirst)
  have hother := count_of_done (of_decide_eq_true hsecond)
  have := h i
  exact decide_eq_true (by omega)

end Plan

namespace Outgoing
variable {rx : Config} {rs : ReedSolomon} {o : Outgoing rx rs} {sub : Int}

def need (o : Outgoing rx rs) : Nat := if 0 < o.sc.dataShards then o.sc.dataShards.toNat else o.frags.length

def Below (o : Outgoing rx rs) (pkts : List Packet) : Prop :=
  o.frags.length + (repeated o.frags.length pkts).length < 2 * o.need

instance (pkts : List Packet) : Decidable (o.Below pkts) := inferInstanceAs (Decidable (_ < _))

theorem need_le (o : Outgoing rx rs) (hrs : rs.Lawful) : o.need ≤ o.frags.length := by
  rw [need]
  split
  next hpos =>
    obtain ⟨hsc, -⟩ | ⟨-, -, hsc, shards, hshards, hf⟩ := o.spec
    · rw [hsc] at hpos
      exact absurd hpos (UInt32.lt_irrefl 0)
    · have hfewer : o.tx.dataShards.toNat ≤ o.frags.length := by
        rw [hf.length, hrs.length hshards]
        exact Nat.le_add_right _ _
      rw [hsc]
      rwa [UInt32.toNat_ofNat_of_lt' (Nat.lt_of_le_of_lt hfewer o.few)]
  · exact Nat.le_refl _

theorem Records.need_le {pkts : List Packet} {st : TransferState} (h : o.Records sub pkts st) (hrs : rs.Lawful)
    (hcut : o.Cut sub) (hready : st.enoughToReassembleLocked ∨ st.isCompleteLocked) :
    o.need ≤ ((o.plan hcut).done pkts).length := by
  rw [Plan.done_congr fun _ => mem_reverse.symm]
  rcases h.done_of_ready hcut hready with hall | ⟨hpos, hle⟩
  · have hlen := Plan.length_done_of_all fun i hi => hall i (o.length_plan hcut ▸ hi)
    exact (o.need_le hrs).trans_eq (hlen.trans (o.length_plan hcut)).symm
  · rwa [need, if_pos hpos]

end Outgoing

def CallPhase.isDelivering : CallPhase → Bool
  | .delivering _ => true
  | _ => false

def IngestCall.issues (x : IngestCall) (ref : Nat) : Bool := x.ref = ref && x.phase.isDelivering

theorem IngestCall.issues_of_not {x : IngestCall} (h : x.phase.isDelivering = false) (ref : Nat) :
    x.issues ref = false := by
  rw [issues, h, Bool.and_false]

@[simp] theorem IngestCall.issues_loaded (pkt : Packet) (r ref : Nat) :
    (⟨pkt, r, .loaded⟩ : IngestCall).issues ref = false :=
  issues_of_not rfl ref

namespace Receiver
variable {t : Config} {rs : ReedSolomon} {w u : Receiver} {a : Action} {ref : Nat} {o : Outgoing t rs} {cut : Nat → Int}

def arrivals (w : Receiver) (id : TransferID) : List Packet := (w.taken.filter (·.id = id)).map Taken.pkt

def issued (w : Receiver) (ref : Nat) : Nat :=
  w.dispatched.countP (·.ref = ref) + w.calls.countP (·.issues ref)

inductive Issues (w u : Receiver) (ref : Nat) : Action → Prop where
  | process {c x st} : w.calls[c]? = some x → x.ref = ref → w.objects[ref]? = some st → st.delivered = false →
    ({ st with toBuffers := st.toBuffers.record x.pkt } : State).enoughToReassembleLocked →
    u.objects = w.objects.set ref { st with toBuffers := st.toBuffers.record x.pkt, delivered := true } →
    u.taken = ⟨ref, st.id, x.pkt⟩ :: w.taken → Issues w u ref (.process c)
  | finish {c x st} : w.conns[c]? = some x → x.ref = ref → x.phase = .leaving → w.objects[ref]? = some st →
    st.isCompleteLocked → u.taken = w.taken → Issues w u ref (.finish c)

variable {c : Nat} {x : IngestCall} {id : TransferID} {st : State}

theorem countP_setCall (hx : w.calls[c]? = some x) (phase : CallPhase) (ref : Nat) :
    (w.calls.set c { x with phase }).countP (·.issues ref) + (x.issues ref).toNat =
      w.calls.countP (·.issues ref) + (({ x with phase } : IngestCall).issues ref).toNat :=
  countP_set_add hx { x with phase } _

theorem countP_quiet {phase : CallPhase} (hx : w.calls[c]? = some x) (hold : x.phase.isDelivering = false)
    (hnew : phase.isDelivering = false) (ref : Nat) :
    (w.calls.set c { x with phase }).countP (·.issues ref) = w.calls.countP (·.issues ref) := by
  have hcount := countP_setCall hx phase ref
  rwa [IngestCall.issues_of_not hold, IngestCall.issues_of_not hnew, Bool.toNat_false, Nat.add_zero,
    Nat.add_zero] at hcount

theorem Steps.issued (hs : Steps t rs w a u) (ref : Nat) :
    u.issued ref = w.issued ref ∨ u.issued ref = w.issued ref + 1 ∧ w.Issues u ref a := by
  cases hs with
  | loaded | created => simp [Receiver.issued]
  | @processed c x st st' phase hx hp hst hok =>
    have hold : x.phase.isDelivering = false := by rw [hp]; rfl
    have hquiet : phase.isDelivering = false →
      w.dispatched.countP (·.ref = ref) + (w.calls.set c { x with phase }).countP (·.issues ref) =
        w.issued ref := fun hnew => congrArg (_ + ·) (countP_quiet hx hold hnew ref)
    cases State.ingest_cases hok with
    | streamed _ hne => exact .inl (hquiet (by rcases hne with rfl | rfl <;> rfl))
    | late | kept => exact .inl (hquiet rfl)
    | @completed data hstream hdelivered henough =>
      have hcount := countP_setCall hx (.delivering data) ref
      rw [IngestCall.issues_of_not hold, Bool.toNat_false, Nat.add_zero] at hcount
      by_cases href : x.ref = ref
      · subst href
        refine .inr ⟨?_, .process hx rfl hst hdelivered henough rfl ?_⟩
        · rw [IngestCall.issues, decide_eq_true rfl] at hcount
          exact congrArg (w.dispatched.countP (·.ref = x.ref) + ·) hcount
        · simp [State.takes, hstream, hdelivered]
      · rw [IngestCall.issues, decide_eq_false href] at hcount
        exact .inl (congrArg (w.dispatched.countP (·.ref = ref) + ·) hcount)
  | @dispatched c x st data hx hp hst =>
    -- What the call was about to dispatch is dispatched now.
    have hcount := countP_setCall hx .deleting ref
    have hboth : (x.issues ref).toNat = if x.ref = ref then 1 else 0 := by
      by_cases href : x.ref = ref
      · simp [IngestCall.issues, hp, href, CallPhase.isDelivering]
      · simp [IngestCall.issues, href]
    rw [hboth, IngestCall.issues_of_not rfl, Bool.toNat_false, Nat.add_zero] at hcount
    left
    simp only [Receiver.issued, setCall, log, countP_append, countP_singleton, decide_eq_true_eq]
    omega
  | @deleted c x hx hp =>
    exact .inl (congrArg (w.dispatched.countP (·.ref = ref) + ·) (countP_quiet hx (by rw [hp]; rfl) rfl ref))
  | @delivered c x st data hx hp hst hstream hcomplete hdata =>
    by_cases href : x.ref = ref
    · refine .inr ⟨?_, .finish hx href hp (href ▸ hst) hcomplete rfl⟩
      simp only [Receiver.issued, setConn, log, countP_append, countP_singleton, href, decide_true, if_true]
      omega
    · left
      simp [Receiver.issued, setConn, log, href]
  | _ => exact .inl rfl

/-! ### What a state has absorbed -/

theorem Steps.absorbed (hs : Steps t rs w a u) (ref : Nat) : w.absorbed ref <+: u.absorbed ref := by
  have htakes : ∀ {st : State} {r : Nat} {pkt : Packet} {took : Bool}, u.taken = st.takes r pkt took ++ w.taken →
      w.absorbed ref <+: u.absorbed ref := by
    intro st r pkt took htaken
    rw [absorbed_takes htaken rfl]
    split
    · exact prefix_append _ _
    · exact prefix_rfl
  cases hs with
  | processed | chunked => exact htakes rfl
  | _ => exact prefix_rfl

theorem count_places (l : List Taken) (p : Taken → Bool) (i k : Nat) :
    (placesOf i ((l.filter p).map Taken.pkt)).count k =
    l.countP fun e => p e && (e.pkt.chunkNumber = UInt32.ofNat i && e.pkt.subIndex.toNat = k) := by
  rw [placesOf, count_eq_countP, countP_map, countP_filter, countP_map, countP_filter]
  refine countP_congr fun e _ => ?_
  simp [and_comm]

theorem count_absorbed {r r' : Nat} (hrefs : w.Refs) (hr : w.Of r id) (hr' : w.Of r' id) (hne : r ≠ r') (i k : Nat) :
    (placesOf i (w.absorbed r)).count k + (placesOf i (w.absorbed r')).count k ≤
      (placesOf i (w.arrivals id)).count k := by
  have hown : ∀ {ref : Nat} {e : Taken}, w.Of ref id → e ∈ w.taken → e.ref = ref → e.id = id := by
    rintro _ e hof he rfl
    exact mem_unique (hrefs.taken e he) hof
  have habsorbed : ∀ ref, (placesOf i (w.absorbed ref)).count k =
      w.taken.countP fun e => e.ref = ref && (e.pkt.chunkNumber = UInt32.ofNat i && e.pkt.subIndex.toNat = k) := by
    intro ref
    rw [← count_places, absorbed, placesOf, filter_reverse, map_reverse, count_reverse]
    rfl
  rw [habsorbed, habsorbed, arrivals, count_places]
  have hle := countP_add_le (l := w.taken) (s := fun _ => false)
    (p := fun e => e.ref = r && (e.pkt.chunkNumber = UInt32.ofNat i && e.pkt.subIndex.toNat = k))
    (q := fun e => e.ref = r' && (e.pkt.chunkNumber = UInt32.ofNat i && e.pkt.subIndex.toNat = k))
    (r := fun e => e.id = id && (e.pkt.chunkNumber = UInt32.ofNat i && e.pkt.subIndex.toNat = k)) ?_ ?_
  · simpa using hle
  · intro e he hor
    simp only [Bool.and_eq_true, decide_eq_true_eq] at hor ⊢
    rcases hor with ⟨href, hplace⟩ | ⟨href, hplace⟩
    · exact ⟨hown hr he href, hplace⟩
    · exact ⟨hown hr' he href, hplace⟩
  · intro e _ h h'
    simp only [Bool.and_eq_true, decide_eq_true_eq] at h h'
    exact absurd (h.1.symm.trans h'.1) hne

/-! ### One dispatch -/

def directAt (w : Receiver) (ref : Nat) : Option Bool := (w.kindAt ref).map Kind.hasMeta

theorem Steps.directAt {b : Bool} (hs : Steps t rs w a u) (h : w.directAt ref = some b) : u.directAt ref = some b := by
  obtain ⟨k, hk, rfl⟩ := map_eq_some_iff.mp h
  rw [Receiver.directAt, hs.kindAt hk]
  rfl

theorem directAt_object (h : w.objects[ref]? = some st) : w.directAt ref = some st.hasMeta := by
  simp [Receiver.directAt, kindAt, h, State.kind]

/-- Too few fragments of the transfer come again for a second dispatch, and no forwarded packet of it meets the state of
    a connection. A packet for a state that has delivered does not count. --/
def Fresh (o : Outgoing t rs) (w : Receiver) : Action → Prop
  | .forward pkt _ => pkt.id = o.id → o.Below (w.arrivals o.id) ∧
    ∀ ref ∈ w.table.get? pkt.id, w.directAt ref = some false
  | .process c => ∀ x ∈ w.calls[c]?, x.pkt.id = o.id → ∀ st ∈ w.objects[x.ref]?, st.delivered = false →
      o.Below (x.pkt :: w.arrivals o.id)
  | .connect pkt => pkt.id = o.id → o.Below (w.arrivals o.id)
  | .chunk c pkt => ∀ x ∈ w.conns[c]?, x.id = o.id → o.Below (pkt :: w.arrivals o.id)
  | _ => True

instance : ∀ a, Decidable (w.Fresh o a)
  | .forward pkt _ => inferInstanceAs (Decidable (_ → _ ∧ ∀ ref ∈ w.table.get? pkt.id, _))
  | .process c => inferInstanceAs (Decidable (∀ x ∈ w.calls[c]?, _ → ∀ st ∈ w.objects[x.ref]?, _ → _))
  | .connect _ => inferInstanceAs (Decidable (_ → _))
  | .chunk c _ => inferInstanceAs (Decidable (∀ x ∈ w.conns[c]?, _ → _))
  | .dispatch _ | .delete _ | .ack _ | .eof _ | .fail _ | .finish _ | .close _ => inferInstanceAs (Decidable True)

theorem arrivals_takes {r : Nat} {pkt : Packet} {took : Bool}
    (h : u.taken = st.takes r pkt took ++ w.taken) :
    u.arrivals id = if took = true ∧ st.id = id then pkt :: w.arrivals id else w.arrivals id := by
  rw [arrivals, h, State.takes]
  cases took with
  | false => rfl
  | true =>
    by_cases hid : st.id = id
    · simp [arrivals, hid]
    · simp [arrivals, hid]

theorem Steps.below (hs : Steps t rs w a u) (hrefs : w.Refs) (hfresh : w.Fresh o a)
    (h : ∀ st ∈ w.objects, st.id = o.id → o.Below (w.arrivals o.id)) :
    ∀ st ∈ u.objects, st.id = o.id → o.Below (u.arrivals o.id) := by
  have hset : ∀ {r : Nat} {st st' : State} {pkt : Packet} {took : Bool}, w.objects[r]? = some st → st'.kind = st.kind →
      u.objects = w.objects.set r st' → u.taken = st.takes r pkt took ++ w.taken →
      (took = true → st.id = o.id → o.Below (pkt :: w.arrivals o.id)) → ∀ s ∈ u.objects, s.id = o.id →
        o.Below (u.arrivals o.id) := by
    intro r st st' pkt took hst hkind hobj htaken hcond s hs hid
    rw [arrivals_takes htaken]
    split
    · next htook => exact hcond htook.1 htook.2
    · rw [hobj] at hs
      rcases mem_or_eq_of_mem_set hs with hs | rfl
      · exact h s hs hid
      · exact h st (mem_of_getElem? hst) ((congrArg Kind.id hkind).symm.trans hid)
  cases hs with
  | @created pkt routed hnone =>
    intro st hst hid
    rcases mem_append_single.mp hst with hst | rfl
    · exact h st hst hid
    · exact (hfresh hid).1
  | @connected pkt hnone =>
    intro st hst hid
    rcases mem_append_single.mp hst with hst | rfl
    · exact h st hst hid
    · exact hfresh hid
  | @processed c x st st' phase hx hp hst hok =>
    refine hset hst (State.ingest_cases hok).kind_eq rfl rfl fun htook hid => ?_
    have hpkt : x.pkt.id = o.id := ((hrefs.call x (mem_of_getElem? hx)).id_eq hst).symm.trans hid
    simp only [Bool.and_eq_true, Bool.not_eq_true'] at htook
    exact hfresh x hx hpkt st hst htook.2
  | @chunked c x st st' pkt hx hp hst hok =>
    refine hset hst (State.processChunk_kind hok) rfl rfl fun _ hid => ?_
    exact hfresh x hx (((hrefs.conn x (mem_of_getElem? hx)).id_eq hst).symm.trans hid)
  | _ => exact h

structure Apart (id : TransferID) (w : Receiver) : Prop where
  call : ∀ x ∈ w.calls, x.pkt.id = id → w.directAt x.ref = some false
  conn : ∀ x ∈ w.conns, x.id = id → w.directAt x.ref = some true
  alone : ∀ (c c' : Nat) (x x' : Conn), w.conns[c]? = some x → w.conns[c']? = some x' → x.id = id →
    x.ref = x'.ref → c = c'

theorem apart_new (id : TransferID) : new.Apart id :=
  ⟨nofun, nofun, fun _ _ _ _ hx => nomatch hx⟩

theorem Steps.apart (hs : Steps t rs w a u) (hrefs : w.Refs)
    (hforward : ∀ pkt routed, a = .forward pkt routed → pkt.id = id →
      ∀ ref ∈ w.table.get? pkt.id, w.directAt ref = some false)
    (hconnect : ∀ pkt, a = .connect pkt → pkt.id = id → pkt.streaming = false) (h : w.Apart id) : u.Apart id where
  call x hx hid := by
    obtain ⟨y, hy, href, hpkt⟩ | ⟨routed, ha, he | ⟨href, hu⟩⟩ := hs.mem_calls hx
    · exact href ▸ hs.directAt (h.call y hy (hpkt ▸ hid))
    · exact hs.directAt (hforward x.pkt routed ha hid x.ref he)
    · rw [Receiver.directAt, Receiver.kindAt, hu, href]
      exact congrArg (Option.map Kind.hasMeta) kindAt_new
  conn x hx hid := by
    obtain ⟨y, hy, href, hyid⟩ | ⟨pkt, ha, hpkt, ⟨hstream, -⟩ | ⟨href, hu⟩⟩ := hs.mem_conns hx
    · exact href ▸ hs.directAt (h.conn y hy (hyid.trans hid))
    · exact absurd (hstream.symm.trans (hconnect pkt ha (hpkt.trans hid))) (by decide)
    · rw [Receiver.directAt, Receiver.kindAt, hu, href]
      exact congrArg (Option.map Kind.hasMeta) kindAt_new
  alone c c' x x' hx hx' hid heq := by
    have hid' : x'.id = id := by
      have hof := (hs.refs hrefs).conn x (mem_of_getElem? hx)
      have hof' := (hs.refs hrefs).conn x' (mem_of_getElem? hx')
      rw [heq] at hof
      exact (mem_unique hof' hof).trans hid
    have hold : ∀ {d : Nat} {y : Conn}, w.conns[d]? = some y → y.ref < w.objects.length := fun hy =>
      (hrefs.conn _ (mem_of_getElem? hy)).lt
    obtain ⟨y, hy, href, hyid⟩ | ⟨hc, pkt, ha, hpkt, ⟨hstream, -⟩ | ⟨href, -⟩⟩ := hs.conn_at hx
    · obtain ⟨y', hy', href', -⟩ | ⟨-, pkt, ha, hpkt, ⟨hstream, -⟩ | ⟨href', -⟩⟩ := hs.conn_at hx'
      · exact h.alone c c' y y' hy hy' (hyid.trans hid) (href.trans (heq.trans href'.symm))
      · exact absurd (hstream.symm.trans (hconnect pkt ha (hpkt.trans hid'))) (by decide)
      · exact absurd (hold hy) (by omega)
    · exact absurd (hstream.symm.trans (hconnect pkt ha (hpkt.trans hid))) (by decide)
    · obtain ⟨y', hy', href', -⟩ | ⟨hc', -⟩ := hs.conn_at hx'
      · exact absurd (hold hy') (by omega)
      · omega

theorem of_issued (hrefs : w.Refs) (h : 0 < w.issued ref) : ∃ id, w.Of ref id := by
  rcases Nat.add_pos_iff_pos_or_pos.mp h with hpos | hpos
  · obtain ⟨e, he, href⟩ := countP_pos_iff.mp hpos
    exact ⟨e.id, of_decide_eq_true href ▸ hrefs.dispatched e he⟩
  · obtain ⟨x, hx, hissues⟩ := countP_pos_iff.mp hpos
    exact ⟨x.pkt.id, of_decide_eq_true (Bool.and_eq_true_iff.mp hissues).1 ▸ hrefs.call x hx⟩

/-- The invariant: a state gives its transfer once. --/
structure Single (o : Outgoing t rs) (cut : Nat → Int) (hcut : ∀ ref, o.Cut (cut ref)) (w : Receiver) : Prop where
  issued : ∀ ref, w.Of ref o.id → w.issued ref ≤ 1
  enough : ∀ ref, w.Of ref o.id → 0 < w.issued ref → o.need ≤ ((o.plan (hcut ref)).done (w.absorbed ref)).length
  delivered : ∀ (ref : Nat) (st : State), w.objects[ref]? = some st → st.id = o.id → st.hasMeta = false →
    0 < w.issued ref →
    st.delivered = true
  ended : ∀ x ∈ w.conns, x.id = o.id → 0 < w.issued x.ref → x.phase = .closing ∨ x.phase = .closed

theorem single_new (hcut : ∀ ref, o.Cut (cut ref)) : new.Single o cut hcut := by
  constructor
  · exact fun _ _ => Nat.zero_le 1
  · exact fun _ _ h => absurd h (Nat.lt_irrefl 0)
  · exact fun _ _ h => nomatch h
  · exact nofun

section
variable {hcut : ∀ ref, o.Cut (cut ref)}

theorem Single.issued_zero (h : w.Single o cut hcut) (hapart : w.Apart o.id) (hrefs : w.Refs) (hof : w.Of ref o.id)
    (hissues : w.Issues u ref a) : w.issued ref = 0 := by
  refine Nat.eq_zero_of_not_pos fun hpos => ?_
  cases hissues with
  | @process c x st hx href hst hdelivered =>
    have hid : x.pkt.id = o.id := Option.some.inj ((href ▸ hrefs.call x (mem_of_getElem? hx)).symm.trans hof)
    have hmeta := (directAt_object hst).symm.trans (href ▸ hapart.call x (mem_of_getElem? hx) hid)
    have hdone := h.delivered ref st hst (hof.id_eq hst) (Option.some.inj hmeta) hpos
    exact absurd (hdelivered.symm.trans hdone) (by decide)
  | @finish c x st hx href hphase =>
    have hid : x.id = o.id := Option.some.inj ((href ▸ hrefs.conn x (mem_of_getElem? hx)).symm.trans hof)
    rcases h.ended x (mem_of_getElem? hx) hid (href ▸ hpos) with hend | hend
    · exact absurd (hphase.symm.trans hend) (by decide)
    · exact absurd (hphase.symm.trans hend) (by decide)

theorem Yields.need_le (h : w.Exact o cut) (hrs : rs.Lawful) (hcut : ∀ ref, o.Cut (cut ref)) (hrefs : w.Refs)
    (hfilled : w.Filled) (hof : w.Of ref o.id) (hissues : w.Issues u ref a) :
    o.need ≤ ((o.plan (hcut ref)).done (u.absorbed ref)).length := by
  cases hissues with
  | @process c x st hx href hst _ henough _ htaken =>
    have hid : x.pkt.id = o.id := Option.some.inj ((href ▸ hrefs.call x (mem_of_getElem? hx)).symm.trans hof)
    have hmore : ∀ pkt ∈ [x.pkt], o.Sent (cut ref) pkt := by
      intro pkt hpkt
      obtain rfl := mem_singleton.mp hpkt
      exact href ▸ (h.call x (mem_of_getElem? hx) hid).1
    have habsorbed : u.absorbed ref = w.absorbed ref ++ [x.pkt] := by simp [Receiver.absorbed, htaken]
    rw [habsorbed]
    exact (h.records hrefs hfilled hst (hof.id_eq hst) hmore).need_le hrs (hcut ref) (.inl henough)
  | @finish c x st hx href _ hst hcomplete htaken =>
    have hnone : ∀ pkt ∈ [], o.Sent (cut ref) pkt := by simp
    have habsorbed : u.absorbed ref = w.absorbed ref ++ [] := by simp [Receiver.absorbed, htaken]
    rw [habsorbed]
    exact (h.records hrefs hfilled hst (hof.id_eq hst) hnone).need_le hrs (hcut ref) (.inr hcomplete)

theorem Single.ended_set {c : Nat} {x : Conn} {phase : ConnPhase} (h : w.Single o cut hcut)
    (hx : w.conns[c]? = some x) (hphase : phase = .closing ∨ phase = .closed ∨ x.phase ≠ .closing ∧ x.phase ≠ .closed) :
    ∀ y ∈ w.conns.set c { x with phase }, y.id = o.id → 0 < w.issued y.ref → y.phase = .closing ∨
      y.phase = .closed := by
  intro y hy hid hpos
  rcases mem_or_eq_of_mem_set hy with hy | rfl
  · exact h.ended y hy hid hpos
  · rcases hphase with hphase | hphase | ⟨hne, hne'⟩
    · exact .inl hphase
    · exact .inr hphase
    · rcases h.ended x (mem_of_getElem? hx) hid hpos with hend | hend
      · exact absurd hend hne
      · exact absurd hend hne'

theorem Steps.conns_ended (hs : Steps t rs w a u) (hrefs : w.Refs) (hapart : w.Apart o.id)
    (hconnect : ∀ pkt, a = .connect pkt → pkt.id = o.id → pkt.streaming = false) (h : w.Single o cut hcut) :
    ∀ x ∈ u.conns, x.id = o.id → 0 < u.issued x.ref → x.phase = .closing ∨ x.phase = .closed := by
  have hnew : w.issued w.objects.length = 0 := by
    refine Nat.eq_zero_of_not_pos fun hpos => ?_
    obtain ⟨id, hof⟩ := of_issued hrefs hpos
    exact absurd hof.lt (Nat.lt_irrefl _)
  have hcall : ∀ {y : Conn} {c : Nat}, y ∈ w.conns → y.id = o.id → ¬w.Issues u y.ref (.process c) := by
    intro y c hy hid hissues
    cases hissues with
    | @process _ x st hx href hst =>
      have hpkt : x.pkt.id = o.id := Option.some.inj
        ((href ▸ hrefs.call x (mem_of_getElem? hx)).symm.trans (hid ▸ hrefs.conn y hy))
      have hboth := (href ▸ hapart.call x (mem_of_getElem? hx) hpkt).symm.trans (hapart.conn y hy hid)
      exact absurd (Option.some.inj hboth) (by decide)
  have hissued := fun ref => hs.issued ref
  cases hs with
  | @processed c x st st' phase hx hp hst hok =>
    intro y hy hid hpos
    rcases hissued y.ref with heq | ⟨-, hissues⟩
    · exact h.ended y hy hid (heq ▸ hpos)
    · exact absurd hissues (hcall hy hid)
  | @dispatched c x st data hx hp hst | @deleted c x hx hp =>
    intro y hy hid hpos
    rcases hissued y.ref with heq | ⟨-, hissues⟩
    · exact h.ended y hy hid (heq ▸ hpos)
    · cases hissues
  | @delivered c x st data hx hp hst hstream hcomplete hdata =>
    intro y hy hid hpos
    obtain ⟨d, hd⟩ := mem_iff_getElem?.mp hy
    rw [show ((w.log x.ref st data).setConn c x .closing).conns = w.conns.set c { x with phase := .closing } from rfl,
      getElem?_set'] at hd
    split at hd
    · rw [‹c = d›.symm, hx] at hd
      cases hd
      exact .inl rfl
    next hne =>
      -- Another connection of the transfer has another state, which is not dispatched here.
      have hother : x.ref ≠ y.ref := fun heq => hne (hapart.alone d c y x hd hx hid heq.symm).symm
      refine h.ended y (mem_of_getElem? hd) hid ?_
      simpa [Receiver.issued, setConn, log, hother] using hpos
  | loaded | created =>
    intro y hy hid hpos
    exact h.ended y hy hid (by simpa [Receiver.issued] using hpos)
  | @resumed pkt ref hkeep href =>
    intro y hy hid hpos
    rcases mem_append_single.mp hy with hy | rfl
    · exact h.ended y hy hid hpos
    · exact absurd ((Bool.and_eq_true_iff.mp hkeep).2.symm.trans (hconnect pkt rfl hid)) (by decide)
  | @connected pkt hnone =>
    intro y hy hid hpos
    rcases mem_append_single.mp hy with hy | rfl
    · exact h.ended y hy hid hpos
    · have hpos : 0 < w.issued w.objects.length := hpos
      omega
  | @chunked c x st st' pkt hx hp hst hok | @acked c x phase hx hp hphase | @ended c x hx hp =>
    exact h.ended_set hx (.inr (.inr (by rw [hp]; decide)))
  | failed hx | undelivered hx => exact h.ended_set hx (.inl rfl)
  | kept hx | closed hx => exact h.ended_set hx (.inr (.inl rfl))
  | crashed => exact h.ended

theorem Steps.single (hs : Steps t rs w a u) (hrs : rs.Lawful) (hrefs : w.Refs) (hfilled : w.Filled)
    (hexact : w.Exact o cut) (hapart : w.Apart o.id)
    (hconnect : ∀ pkt, a = .connect pkt → pkt.id = o.id → pkt.streaming = false) (h : w.Single o cut hcut) :
    u.Single o cut hcut := by
  -- What was dispatched before the step belongs to a state that was there.
  have hbefore : ∀ {ref : Nat}, u.Of ref o.id → 0 < w.issued ref → w.Of ref o.id := by
    intro ref hof hpos
    obtain ⟨id, hw⟩ := of_issued hrefs hpos
    exact mem_unique (hs.of hw) hof ▸ hw
  have hissues : ∀ {ref : Nat}, u.Of ref o.id → w.Issues u ref a → w.Of ref o.id := by
    intro ref hof hissues
    have hobj : ∃ st, w.objects[ref]? = some st := by
      cases hissues with
      | process _ _ hst | finish _ _ _ hst => exact ⟨_, hst⟩
    obtain ⟨st, hst⟩ := hobj
    exact Option.some.inj ((hs.of (of_object hst)).symm.trans hof) ▸ of_object hst
  refine ⟨fun ref hof => ?_, fun ref hof hpos => ?_, fun ref st hst hid hmeta hpos => ?_,
    hs.conns_ended hrefs hapart hconnect h⟩
  · rcases hs.issued ref with heq | ⟨heq, hnew⟩
    · rw [heq]
      by_cases hpos : 0 < w.issued ref
      · exact h.issued ref (hbefore hof hpos)
      · omega
    · rw [heq, h.issued_zero hapart hrefs (hissues hof hnew) hnew]
  · rcases hs.issued ref with heq | ⟨-, hnew⟩
    · rw [heq] at hpos
      exact (h.enough ref (hbefore hof hpos) hpos).trans (Plan.length_done_mono (hs.absorbed ref).subset)
    · exact hexact.need_le hrs hcut hrefs hfilled (hissues hof hnew) hnew
  · have hof : u.Of ref o.id := hid ▸ of_object hst
    rcases hs.issued ref with heq | ⟨-, hnew⟩
    · rw [heq] at hpos
      have hw := hbefore hof hpos
      obtain ⟨s, hs'⟩ : ∃ s, w.objects[ref]? = some s := ⟨_, getElem?_eq_getElem hw.lt⟩
      have hkind : s.hasMeta = false := by
        have := (hs.directAt (directAt_object hs')).symm.trans (directAt_object hst)
        exact (Option.some.inj this).trans hmeta
      obtain ⟨s', hs'', hbecomes⟩ := hs.object hs'
      cases hs''.symm.trans hst
      exact hbecomes.delivered (h.delivered ref s hs' (hw.id_eq hs') hkind hpos)
    · cases hnew with
      | @process c x s _ _ hs' _ _ hobj =>
        rw [hobj, getElem?_set', if_pos rfl, hs'] at hst
        cases hst
        rfl
      | @finish c x s hx href =>
        have hxid : x.id = o.id := Option.some.inj
          ((hs.of (href ▸ hrefs.conn x (mem_of_getElem? hx))).symm.trans hof)
        have := (hs.directAt (href ▸ hapart.conn x (mem_of_getElem? hx) hxid)).symm.trans (directAt_object hst)
        exact absurd ((Option.some.inj this).trans hmeta) (by decide)

theorem Single.unique {r r' : Nat} (h : w.Single o cut hcut)
    (hbelow : ∀ st ∈ w.objects, st.id = o.id → o.Below (w.arrivals o.id)) (hrefs : w.Refs) (hr : w.Of r o.id)
    (hr' : w.Of r' o.id) (hissued : 0 < w.issued r) (hissued' : 0 < w.issued r') : r = r' := by
  by_contra hne
  have hle := Plan.done_add_done_le (o.length_plan (hcut r)) (o.length_plan (hcut r')) fun i =>
    count_absorbed hrefs hr hr' hne i 0
  have hneed := h.enough r hr hissued
  have hneed' := h.enough r' hr' hissued'
  obtain ⟨st, hst⟩ : ∃ st, w.objects[r]? = some st := ⟨_, getElem?_eq_getElem hr.lt⟩
  have hlt := hbelow st (mem_of_getElem? hst) (hr.id_eq hst)
  rw [Outgoing.Below] at hlt
  omega

end

/-- In every run in which what the receiver takes for a transfer is its sender's, and too few fragments come twice for a
    second dispatch, the transfer is dispatched once at most. --/
theorem dispatched_once {as : List Action} (hrs : rs.Lawful) (hcut : ∀ ref, o.Cut (cut ref))
    (hcond : Along (step t rs) (fun w a => w.Own o cut a ∧ w.Fresh o a) new as)
    (hrun : exec (step t rs) new as = some w) :
    (w.dispatched.filter (·.id = o.id)).length ≤ 1 := by
  have hinv : (w.Refs ∧ w.Filled ∧ w.Exact o cut ∧ w.Apart o.id) ∧
      (∀ st ∈ w.objects, st.id = o.id → o.Below (w.arrivals o.id)) ∧ w.Single o cut hcut := by
    refine exec_keeps_along (P := fun w : Receiver => (w.Refs ∧ w.Filled ∧ w.Exact o cut ∧ w.Apart o.id) ∧
      (∀ st ∈ w.objects, st.id = o.id → o.Below (w.arrivals o.id)) ∧ w.Single o cut hcut) ?_
      ⟨⟨refs_new, filled_new, exact_new, apart_new o.id⟩, fun _ hst => absurd hst not_mem_nil, single_new hcut⟩
      hcond hrun
    rintro w a u ⟨hown, hfresh⟩ ⟨⟨hrefs, hfilled, hexact, hapart⟩, hbelow, hsingle⟩ hstep
    have hs := step_cases hstep
    have hconnect : ∀ pkt, a = .connect pkt → pkt.id = o.id → pkt.streaming = false := by
      rintro pkt rfl hid
      exact Outgoing.Opening.streaming (o := o) (hown hid)
    have hforward : ∀ pkt routed, a = .forward pkt routed → pkt.id = o.id →
        ∀ ref ∈ w.table.get? pkt.id, w.directAt ref = some false := by
      rintro pkt routed rfl hid
      exact (hfresh hid).2
    exact ⟨⟨hs.refs hrefs, hs.filled hrefs hfilled, hs.exact hrs hcut hrefs hfilled hown hexact,
      hs.apart hrefs hforward hconnect hapart⟩,
      hs.below hrefs hfresh hbelow, hs.single hrs hrefs hfilled hexact hapart hconnect hsingle⟩
  obtain ⟨⟨hrefs, -⟩, hbelow, hsingle⟩ := hinv
  by_contra hmore
  have hissued : ∀ e ∈ w.dispatched, 0 < w.issued e.ref := fun e he =>
    Nat.add_pos_left (countP_pos_iff.mpr ⟨e, he, decide_eq_true rfl⟩) _
  -- All of them are dispatches of one state.
  obtain ⟨e, he⟩ : ∃ e, e ∈ w.dispatched.filter (·.id = o.id) := exists_mem_of_length_pos (by omega)
  obtain ⟨hmem, hid⟩ := mem_filter.mp he
  have hof : w.Of e.ref o.id := of_decide_eq_true hid ▸ hrefs.dispatched e hmem
  have hle : (w.dispatched.filter (·.id = o.id)).length ≤ w.issued e.ref := by
    rw [← countP_eq_length_filter]
    refine (countP_mono_left fun e' he' hid' => ?_).trans (Nat.le_add_right _ _)
    have hof' : w.Of e'.ref o.id := of_decide_eq_true hid' ▸ hrefs.dispatched e' he'
    exact decide_eq_true (hsingle.unique hbelow hrefs hof' hof (hissued e' he') (hissued e hmem))
  exact hmore (hle.trans (hsingle.issued e.ref hof))

namespace Again
open Sample (node transferID)

def rx : Config := node 0 0 1048576 none

def next : Receiver → Action → Option Receiver := step rx copies

def packet (i total : UInt32) (payload : Bytes) : Packet :=
  { id := transferID, sourceNode := "sender", chunkNumber := i, totalChunks := total, subTotal := 1, payload }

def pair : Outgoing rx copies where
  tx := node 0 0 2 none
  id := transferID
  data := [1, 2, 3]
  isVariable := false
  hybrid := false
  pq := false
  sealer := none
  frags := plainFragments transferID [[1, 2], [3]]
  sc := {}
  size := by decide
  short := Sample.short_bytes
  built := by decide
  opens := trivial
  few := by decide

/-- The two chunks come, and the first of them once more when the payload was dispatched. --/
def late : List Action :=
  [.forward (packet 0 2 [1, 2]) true, .process 0, .forward (packet 1 2 [3]) true, .process 1, .dispatch 1, .delete 1,
   .forward (packet 0 2 [1, 2]) true, .process 2]

def single : Outgoing rx copies where
  tx := rx
  id := transferID
  data := [1, 2, 3]
  isVariable := false
  hybrid := false
  pq := false
  sealer := none
  frags := plainFragments transferID [[1, 2, 3]]
  sc := {}
  size := by decide
  short := Sample.short_bytes
  built := by decide
  opens := trivial
  few := Sample.few_plain

def resent : List Action :=
  [.forward (packet 0 1 [1, 2, 3]) true, .process 0, .dispatch 0, .delete 0,
   .forward (packet 0 1 [1, 2, 3]) true, .process 1, .dispatch 1, .delete 1]

end Again

open Again in
theorem dispatched_once_late : ∃ w, exec next new late = some w ∧ w.objects.length = 2 ∧
    (w.dispatched.filter (·.id = pair.id)).length ≤ 1 := by
  have hrun : (exec next new late).map (·.objects.length) = some 2 := by decide +kernel
  obtain ⟨w, hw, hlen⟩ := map_eq_some_iff.mp hrun
  have hcond : Along next (fun w a => w.Own pair (fun _ => 0) a ∧ w.Fresh pair a) new late := by decide +kernel
  exact ⟨w, hw, hlen, dispatched_once copies_lawful (fun _ => by decide) hcond hw⟩

open Again in
/-- A payload of one chunk is sent twice, because the acknowledgement was late. The state of the first time is gone
    when the chunk comes again, and the payload is dispatched twice. --/
theorem dispatched_twice : ∃ w, exec next new resent = some w ∧ Along next (Own single fun _ => 0) new resent ∧
    (w.dispatched.filter (·.id = single.id)).length = 2 := by
  have hrun : (exec next new resent).map (fun w => (w.dispatched.filter (·.id = single.id)).length) =
      some 2 := by decide +kernel
  obtain ⟨w, hw, hlen⟩ := map_eq_some_iff.mp hrun
  exact ⟨w, hw, by decide +kernel, hlen⟩

end Receiver
end SyncSwarm.Transfer
