import SyncSwarm.Theorems.Ingest.Objects

/-! What the states of the receiving node hold: the buffers of each are what the packets that it has absorbed make of
    empty ones. -/

namespace SyncSwarm.Transfer
open Lib Protocol Fragment List

theorem Buffers.recordAll_append (b : Buffers) (pkts more : List Packet) :
    (b.recordAll (pkts ++ more)).1 = ((b.recordAll pkts).1.recordAll more).1 := by
  induction pkts generalizing b with
  | nil => rfl
  | cons q pkts ih => exact ih (b.record q)

namespace Receiver
variable {t : Config} {rs : ReedSolomon} {w u : Receiver} {a : Action} {ref : Nat}

def absorbed (w : Receiver) (ref : Nat) : List Packet := ((w.taken.filter (·.ref = ref)).map Taken.pkt).reverse

theorem mem_absorbed {pkt : Packet} : pkt ∈ w.absorbed ref ↔ ∃ e ∈ w.taken, e.ref = ref ∧ e.pkt = pkt := by
  simp [absorbed, and_assoc]

theorem absorbed_takes {l : List Taken} {st : State} {r : Nat} {pkt : Packet} {took : Bool}
    (h : u.taken = st.takes r pkt took ++ l) (hw : w.taken = l) (ref : Nat) :
    u.absorbed ref = if took = true ∧ r = ref then w.absorbed ref ++ [pkt] else w.absorbed ref := by
  subst hw
  rw [absorbed, h, State.takes]
  cases took with
  | false => rfl
  | true =>
    by_cases hr : r = ref
    · simp [absorbed, hr]
    · simp [absorbed, hr]

def Filled (w : Receiver) : Prop :=
  ∀ ref st, w.objects[ref]? = some st → st.toBuffers = (Buffers.empty.recordAll (w.absorbed ref)).1

theorem Filled.set {st st' : State} {r : Nat} {pkt : Packet} {took : Bool} (h : w.Filled)
    (hst : w.objects[r]? = some st) (hobj : u.objects = w.objects.set r st')
    (htaken : u.taken = st.takes r pkt took ++ w.taken)
    (hbuf : st'.toBuffers = if took then st.toBuffers.record pkt else st.toBuffers) : u.Filled := by
  intro ref s hs
  rw [absorbed_takes htaken rfl]
  rw [hobj, getElem?_set'] at hs
  by_cases hr : r = ref
  · subst hr
    rw [if_pos rfl, hst] at hs
    obtain rfl : st' = s := Option.some.inj hs
    cases took with
    | false => simpa using hbuf.trans (h r st hst)
    | true =>
      rw [if_pos ⟨rfl, rfl⟩, Buffers.recordAll_append, ← h r st hst]
      exact hbuf
  · rw [if_neg hr] at hs
    rw [if_neg fun hand => hr hand.2]
    exact h ref s hs

theorem Filled.append {st : State} (h : w.Filled) (hrefs : w.Refs) (hobj : u.objects = w.objects ++ [st])
    (htaken : u.taken = w.taken) (hbuf : st.toBuffers = .empty) : u.Filled := by
  intro ref s hs
  rw [absorbed, htaken, ← absorbed]
  rw [hobj, getElem?_append] at hs
  split at hs
  · exact h ref s hs
  next hge =>
    have hnone : w.absorbed ref = [] := by
      refine eq_nil_iff_forall_not_mem.mpr fun pkt hpkt => ?_
      obtain ⟨e, he, rfl, -⟩ := mem_absorbed.mp hpkt
      exact hge (hrefs.taken e he).lt
    rw [hnone]
    obtain rfl : s = st := by simpa using mem_of_getElem? hs
    exact hbuf

theorem Filled.same (h : w.Filled) (hobj : u.objects = w.objects) (htaken : u.taken = w.taken) : u.Filled := by
  intro ref st hst
  rw [absorbed, htaken]
  exact h ref st (hobj ▸ hst)

theorem Steps.filled (hs : Steps t rs w a u) (hrefs : w.Refs) (h : w.Filled) : u.Filled := by
  cases hs with
  | created | connected => exact h.append hrefs rfl rfl rfl
  | processed _ _ hst hok =>
    refine h.set hst rfl rfl ?_
    cases State.ingest_cases hok with
    | streamed hstream => simp [hstream]
    | late hstream hdelivered | kept hstream hdelivered | completed hstream hdelivered => simp [hstream, hdelivered]
  | chunked _ _ hst hok =>
    refine h.set hst rfl rfl ?_
    obtain ⟨sa, hsome, rfl⟩ | ⟨hnone, rfl⟩ := State.processChunk_cases hok
    · simp [Option.isNone_eq_false_iff.mpr hsome]
    · simp [hnone]
  | _ => exact h.same rfl rfl

theorem filled_new : new.Filled := fun ref st hst => by simp [new] at hst

end Receiver
end SyncSwarm.Transfer
