import SyncSwarm.Theorems.Ingest.Objects
import SyncSwarm.Theorems.Transfer.Stream

/-! How often a stream gets a sink. A state opens one at most, but it is forgotten when the stream is done. -/

namespace SyncSwarm.Transfer.Receiver
open Lib Protocol Fragment List Option

variable {t : Config} {rs : ReedSolomon} {w u : Receiver} {a : Action} {ref : Nat} {id : TransferID}

/-- What comes for the transfer finds the state of the transfer in the table, or is the first that comes for it. --/
def Known (id : TransferID) (w : Receiver) : Action → Prop
  | .forward pkt _ => pkt.id = id → (w.table.get? pkt.id).isSome ∨ ∀ st ∈ w.objects, st.id ≠ id
  | .connect pkt => pkt.id = id →
      (pkt.resumable && pkt.streaming) = true ∧ (w.table.get? pkt.id).isSome ∨ ∀ st ∈ w.objects, st.id ≠ id
  | _ => True

instance : ∀ a, Decidable (w.Known id a)
  | .forward _ _ => inferInstanceAs (Decidable (_ → _ ∨ ∀ st ∈ w.objects, _ ≠ _))
  | .connect _ => inferInstanceAs (Decidable (_ → _ ∧ _ ∨ ∀ st ∈ w.objects, _ ≠ _))
  | .process _ | .dispatch _ | .delete _ | .chunk _ _ | .ack _ | .eof _ | .fail _ | .finish _ | .close _ =>
    inferInstanceAs (Decidable True)

def Lone (id : TransferID) (w : Receiver) : Prop := ∀ r r', w.Of r id → w.Of r' id → r = r'

theorem Steps.of_before (hs : Steps t rs w a u) (hof : u.Of ref id) (hlt : ref < w.objects.length) : w.Of ref id := by
  obtain ⟨st, hst⟩ : ∃ st, w.objects[ref]? = some st := ⟨_, getElem?_eq_getElem hlt⟩
  have := Option.some.inj ((hs.of (of_object hst)).symm.trans hof)
  exact this ▸ of_object hst

theorem Steps.of_new (hs : Steps t rs w a u) (hknown : w.Known id a) (hof : u.Of ref id) :
    w.Of ref id ∨ ref = w.objects.length ∧ ∀ st ∈ w.objects, st.id ≠ id := by
  by_cases hlt : ref < w.objects.length
  · exact .inl (hs.of_before hof hlt)
  have hlen := hof.lt
  have hnew : ∀ {st : State}, u.objects = w.objects ++ [st] → ref = w.objects.length ∧ st.id = id := by
    intro st hobj
    rw [hobj, length_append, length_singleton] at hlen
    obtain rfl : ref = w.objects.length := by omega
    have hst : u.objects[w.objects.length]? = some st := by rw [hobj, getElem?_concat_length]
    exact ⟨rfl, hof.id_eq hst⟩
  cases hs with
  | @created pkt routed hnone =>
    obtain ⟨href, hid⟩ := hnew rfl
    refine .inr ⟨href, (hknown hid).resolve_left ?_⟩
    rw [hnone]
    exact Bool.false_ne_true
  | @connected pkt hnone =>
    obtain ⟨href, hid⟩ := hnew rfl
    refine .inr ⟨href, (hknown hid).resolve_left ?_⟩
    rintro ⟨hkeep, hsome⟩
    rw [hnone hkeep] at hsome
    exact Bool.false_ne_true hsome
  | processed | chunked => exact absurd (length_set ▸ hlen) hlt
  | _ => exact absurd hlen hlt

theorem Steps.lone (hs : Steps t rs w a u) (hknown : w.Known id a) (h : w.Lone id) : u.Lone id := by
  have hnone : ∀ {r : Nat}, w.Of r id → ¬∀ st ∈ w.objects, st.id ≠ id := by
    intro r hof hall
    obtain ⟨st, hst⟩ : ∃ st, w.objects[r]? = some st := ⟨_, getElem?_eq_getElem hof.lt⟩
    exact hall st (mem_of_getElem? hst) (hof.id_eq hst)
  intro r r' hr hr'
  rcases hs.of_new hknown hr with hw | ⟨href, hfirst⟩
  · rcases hs.of_new hknown hr' with hw' | ⟨-, hfirst⟩
    · exact h r r' hw hw'
    · exact absurd hfirst (hnone hw)
  · rcases hs.of_new hknown hr' with hw' | ⟨href', -⟩
    · exact absurd hfirst (hnone hw')
    · rw [href, href']

/-! ### Sinks -/

inductive Opens (w : Receiver) (id : TransferID) : Action → Prop where
  | process {c x st} : w.calls[c]? = some x → w.objects[x.ref]? = some st → x.pkt.id = id → x.pkt.streaming = true →
    st.stream = none → Opens w id (.process c)
  | connect {pkt} : pkt.id = id → pkt.streaming = true →
    ¬((pkt.resumable && pkt.streaming) = true ∧ (w.table.get? pkt.id).isSome) →
    Opens w id (.connect pkt)

theorem count_opens (w : Receiver) (id : TransferID) (a : Action) :
    (w.opens a).count id = 0 ∨ (w.opens a).count id = 1 ∧ w.Opens id a := by
  have hone : ∀ {j : TransferID}, ([j] : List TransferID).count id = 0 ∨ ([j] : List TransferID).count id =
      1 ∧ j = id := by
    intro j
    by_cases hj : j = id
    · exact .inr ⟨by rw [hj, count_singleton_self], hj⟩
    · exact .inl (count_eq_zero.mpr fun hmem => hj (mem_singleton.mp hmem).symm)
  cases a with
  | process c =>
    cases hx : w.calls[c]? with
    | none => simp [opens, hx]
    | some x =>
      cases hst : w.objects[x.ref]? with
      | none => simp [opens, hx, hst]
      | some st =>
        simp only [opens, hx, hst, bind_some, map_some, getD_some]
        split
        next hcond => exact hone.imp_right fun ⟨hcount, hid⟩ =>
            ⟨hcount, .process hx hst hid hcond.2.1 (isNone_iff_eq_none.mp hcond.2.2)⟩
        · exact .inl rfl
  | connect pkt =>
    simp only [opens]
    split
    next hcond =>
      rw [Bool.and_eq_true, Bool.not_eq_true', Bool.and_eq_false_iff] at hcond
      refine hone.imp_right fun ⟨hcount, hid⟩ => ⟨hcount, .connect hid hcond.1 fun hknown => ?_⟩
      rcases hcond.2 with hkeep | hentry
      · exact absurd (hkeep.symm.trans hknown.1) (by decide)
      · exact absurd (hentry.symm.trans hknown.2) (by decide)
    · exact .inl rfl
  | _ => exact .inl rfl

/-- The invariant: one sink for a stream. --/
structure OneSink (id : TransferID) (w : Receiver) (sinks : List TransferID) : Prop where
  refs : w.Refs
  lone : w.Lone id
  once : sinks.count id ≤ 1
  held : w.down = false → 0 < sinks.count id → ∃ (ref : Nat) (st : State), w.objects[ref]? = some st ∧ st.id = id ∧
    st.stream.isSome

theorem oneSink_new : OneSink id new [] where
  refs := refs_new
  lone r _ hr := absurd hr.lt (Nat.not_lt_zero r)
  once := Nat.zero_le 1
  held _ h := absurd h (Nat.lt_irrefl 0)

theorem OneSink.count_eq_zero {sinks : List TransferID} (h : OneSink id w sinks) (hup : w.down = false)
    (hknown : w.Known id a) (hopens : w.Opens id a) : sinks.count id = 0 := by
  refine Nat.eq_zero_of_not_pos fun hpos => ?_
  obtain ⟨ref, st, hst, hid, hstream⟩ := h.held hup hpos
  cases hopens with
  | @process c x st' hx hst' hpkt hstreaming hnone =>
    obtain rfl : x.ref = ref := h.lone x.ref ref (hpkt ▸ h.refs.call x (mem_of_getElem? hx)) (hid ▸ of_object hst)
    rw [mem_unique hst hst', hnone] at hstream
    exact Bool.false_ne_true hstream
  | @connect pkt hpkt hstreaming hnew => exact (hknown hpkt).resolve_left hnew st (mem_of_getElem? hst) hid

theorem Steps.opened (hs : Steps t rs w a u) (hrefs : w.Refs) (hopens : w.Opens id a) :
    u.down = true ∨ ∃ (ref : Nat) (st : State), u.objects[ref]? = some st ∧ st.id = id ∧ st.stream.isSome := by
  cases hopens with
  | @process c x st hx hst hid hstreaming hnone =>
    cases hs with
    | @processed _ x' st₀ st' phase hx' hp hst' hok =>
      cases hx.symm.trans hx'
      cases hst.symm.trans hst'
      have hof := ((hrefs.call x (mem_of_getElem? hx)).id_eq hst).trans hid
      refine .inr ⟨x.ref, st', ?_, (congrArg Kind.id (State.ingest_cases hok).kind_eq).trans hof, ?_⟩
      · rw [show Receiver.objects _ = w.objects.set x.ref st' from rfl, getElem?_set', if_pos rfl, hst]
        rfl
      · cases State.ingest_cases hok with
        | streamed => rfl
        | late hplain | kept hplain | completed hplain => exact absurd (hplain.symm.trans hstreaming) (by decide)
    | crashed => exact .inl rfl
  | @connect pkt hid hstreaming hnew =>
    cases hs with
    | resumed hkeep href => exact absurd ⟨hkeep, by rw [href]; rfl⟩ hnew
    | connected =>
      refine .inr ⟨w.objects.length, newDirectState pkt, getElem?_concat_length, hid, ?_⟩
      simp [newDirectState, hstreaming]
    | crashed => exact .inl rfl

theorem OneSink.step {sinks : List TransferID} (h : OneSink id w sinks) (hup : w.down = false) (hknown : w.Known id a)
    (hs : Steps t rs w a u) : OneSink id u (sinks ++ w.opens a) := by
  have hlone := hs.lone hknown h.lone
  rcases count_opens w id a with hzero | ⟨hone, hopens⟩
  · have hcount : (sinks ++ w.opens a).count id = sinks.count id := by rw [count_append, hzero, Nat.add_zero]
    refine ⟨hs.refs h.refs, hlone, hcount ▸ h.once, fun _ hpos => ?_⟩
    obtain ⟨ref, st, hst, hid, hstream⟩ := h.held hup (hcount ▸ hpos)
    obtain ⟨st', hst', hbecomes⟩ := hs.object hst
    exact ⟨ref, st', hst', (congrArg Kind.id hbecomes.kind_eq).trans hid, hbecomes.stream hstream⟩
  · have hcount : (sinks ++ w.opens a).count id = 1 := by
      rw [count_append, h.count_eq_zero hup hknown hopens, hone]
    refine ⟨hs.refs h.refs, hlone, Nat.le_of_eq hcount, fun hdown _ => ?_⟩
    exact (hs.opened h.refs hopens).resolve_left fun hgone => absurd (hdown.symm.trans hgone) (by decide)

/-- In every run in which what comes for a transfer finds its state, or is the first that comes, one sink at most is
    opened for the transfer. --/
theorem one_sink {as : List Action} (hcond : Along (Receiver.step t rs) (Known id) new as)
    (hrun : exec (Receiver.step t rs) new as = some w) :
    (outputs (Receiver.step t rs) opens new as).count id ≤ 1 := by
  have hinv : OneSink id w ([] ++ outputs (Receiver.step t rs) opens new as) := by
    refine outputs_keep_along (fun v a t l hknown hv hstep => ?_) oneSink_new hcond hrun
    exact hv.step (step_up hstep) hknown (step_cases hstep)
  exact hinv.once

namespace Surplus
open Sample (streamer streamScheme labelSealer transferID)

def next : Receiver → Action → Option Receiver := Receiver.step (streamer 1) copies

def packets : List Packet :=
  packetsOf transferID streamScheme "sender" [] 0
    ((streamer 1).streamBlocks copies [5, 6] transferID (some labelSealer) 0).1

def pkt (i : Nat) : Packet := packets.getD i Sample.streamInit

def enough : List Action :=
  [.forward (pkt 0) false, .process 0, .forward (pkt 1) false, .process 1, .forward (pkt 2) false,
    .process 2, .delete 2]

def surplus : List Action := enough ++ [.forward (pkt 3) false, .process 3]

end Surplus

open Surplus in
theorem one_sink_enough :
    ∃ w, exec next new enough = some w ∧ w.table.len = 0 ∧
      (outputs next opens new enough).count Sample.transferID ≤ 1 := by
  have hrun : (exec next new enough).map (·.table.len) = some 0 := by decide +kernel
  obtain ⟨w, hw, hlen⟩ := map_eq_some_iff.mp hrun
  exact ⟨w, hw, hlen, one_sink (by decide +kernel : Along next (Known Sample.transferID) new enough) hw⟩

open Surplus in
/-- The last parity shard comes when the stream is done and its state forgotten: a second sink is opened. --/
theorem second_sink : packets.length = 4 ∧ (exec next new surplus).isSome ∧
    (outputs next opens new surplus).count Sample.transferID = 2 := by
  decide +kernel

end SyncSwarm.Transfer.Receiver
