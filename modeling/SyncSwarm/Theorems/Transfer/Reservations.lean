import SyncSwarm.Transfer.Reservations
import SyncSwarm.Theorems.Send.FailClosed

/-! A node behind NAT and its circuits. A loop gives its place back only when the node stops. -/

namespace SyncSwarm.Transfer
open Lib List Option
open Discovery (Node)

namespace Reservations
variable {s : Sender} {w t : Reservations} {dead : List String}

/-! ### The loops -/

def relayIDs (w : Reservations) : List String := w.reservationClients.map ReserveLoop.relayID

@[simp] theorem relayIDs_setPhase (w : Reservations) (id : String) (p : LoopPhase) :
    (w.setPhase id p).relayIDs = w.relayIDs := by
  rw [relayIDs, setPhase, List.map_map, relayIDs]
  refine map_congr_left fun l _ => ?_
  show (if l.relayID = id then { l with phase := p } else l).relayID = l.relayID
  split <;> rfl

@[simp] theorem relayIDs_setReserved (w : Reservations) (id : String) (ok : Bool) :
    (w.setReserved id ok).relayIDs = w.relayIDs := rfl

@[simp] theorem phase_setReserved (w : Reservations) (id id' : String) (ok : Bool) :
    (w.setReserved id ok).phase id' = w.phase id' := rfl

theorem phase_setPhase_self {id : String} {p q : LoopPhase} (h : w.phase id = some q) :
    (w.setPhase id p).phase id = some p := by
  obtain ⟨l, hl, -⟩ := map_eq_some_iff.mp h
  have hid : l.relayID = id := by simpa using find?_some hl
  rw [phase, setPhase, find?_map]
  have hsame :
    ((fun m : ReserveLoop => decide (m.relayID = id)) ∘ fun m => if m.relayID = id then { m with phase := p } else m) =
      fun m => decide (m.relayID = id) := by
    funext m
    by_cases hm : m.relayID = id
    · simp [hm]
    · simp [hm]
  rw [hsame, hl, map_some, map_some, if_pos hid]

theorem mem_reservedIDs_setReserved (w : Reservations) (id : String) : id ∈ (w.setReserved id true).reservedIDs := by
  show id ∈ if id ∈ w.reservedIDs then w.reservedIDs else w.reservedIDs ++ [id]
  split
  · assumption
  · exact mem_append.mpr (.inr mem_cons_self)

theorem startLoops_eq (active : Nat) (nodes : List Node) (loops : List ReserveLoop) :
    ∃ new, startLoops s w active nodes loops = loops ++ new := by
  induction nodes generalizing active loops with
  | nil => exact ⟨[], (append_nil _).symm⟩
  | cons n nodes ih =>
    rw [startLoops]
    split
    · exact ⟨[], (append_nil _).symm⟩
    · split
      · exact ih active loops
      · split
        · exact ih active loops
        · obtain ⟨new, hnew⟩ := ih (active + 1) (loops ++ [⟨n.id, s.peerDialAddr n, .head⟩])
          exact ⟨_ :: new, by rw [hnew, append_assoc, singleton_append]⟩

theorem phase_ensureReservations (hneeds : w.needsRelay = true)
    (hroom : w.reservationClients.length < maxReservationRelays) {r : Node} (hr : eligible s w r = true)
    (hnew : r.id ∉ w.relayIDs) (nodes : List Node) :
    (w.ensureReservations s (r :: nodes)).phase r.id = some .head := by
  obtain ⟨new, hloops⟩ := @startLoops_eq s w (w.reservationClients.length + 1) nodes
    (w.reservationClients ++ [⟨r.id, s.peerDialAddr r, .head⟩])
  have hnew : r.id ∉ w.reservationClients.map ReserveLoop.relayID := hnew
  have hnone : w.reservationClients.find? (fun l => l.relayID = r.id) = none := by
    refine find?_eq_none.mpr fun l hl => ?_
    have hid : l.relayID ≠ r.id := fun heq => hnew (heq ▸ mem_map_of_mem hl)
    simpa using hid
  rw [ensureReservations, if_neg (by simp [hneeds]), if_neg (Nat.not_le.mpr hroom), phase, startLoops,
    if_neg (Nat.not_le.mpr hroom),
    if_neg (by simp [hr]), if_neg hnew, hloops, find?_append, find?_append, hnone]
  simp

/-! ### What can still happen -/

/-- Ticks and attempts, of which those of the dead relays fail and no others. --/
def Continues (dead : List String) : Event → Prop
  | .tick _ => True
  | .attempt _ => True
  | .dialed id ok => ok = decide (id ∉ dead)
  | .dropped id => id ∈ dead
  | .retry _ => True
  | _ => False

/-- The node holds a circuit through the relay and says so. --/
def Holds (id : String) (w : Reservations) : Prop := id ∈ w.reservedIDs ∧ w.phase id = some .holding

theorem Holds.mem {id : String} (h : w.Holds id) : id ∈ w.relayIDs := by
  obtain ⟨l, hl, -⟩ := map_eq_some_iff.mp h.2
  have hid : l.relayID = id := by simpa using find?_some hl
  exact hid ▸ mem_map_of_mem (mem_of_find?_eq_some hl)

theorem relayIDs_step {e : Event} (hfull : maxReservationRelays ≤ w.relayIDs.length) (he : Continues dead e)
    (hstep : step s w e = some t) : t.relayIDs = w.relayIDs := by
  cases e with
  | needsRelay v | peers nodes | excommunions ids | stop | ended id => exact he.elim
  | tick nodes =>
    obtain ⟨-, heq⟩ := ite_none_right_eq_some.mp hstep
    rw [relayIDs, length_map] at hfull
    rw [← Option.some.inj heq, ensureReservations, if_pos hfull, ite_self]
  | attempt id | retry id =>
    obtain ⟨-, heq⟩ := ite_none_right_eq_some.mp hstep
    rw [← Option.some.inj heq, relayIDs_setPhase]
  | dialed id ok =>
    obtain ⟨-, heq⟩ := ite_none_right_eq_some.mp hstep
    cases ok with
    | true | false => rw [← Option.some.inj heq, relayIDs_setPhase, relayIDs_setReserved]
  | dropped id =>
    obtain ⟨-, heq⟩ := ite_none_right_eq_some.mp hstep
    rw [← Option.some.inj heq, relayIDs_setPhase, relayIDs_setReserved]

theorem not_leads_of_full (hfull : maxReservationRelays ≤ w.relayIDs.length) {id : String} (hid : id ∉ w.relayIDs) :
    ¬ Leads (step s) (Continues dead) (Holds id) w :=
  not_leads (P := fun v => v.relayIDs = w.relayIDs)
    (fun _ _ _ hv he hstep => (relayIDs_step (hv ▸ hfull) he hstep).trans hv)
    (fun _ hv hholds => hid (hv ▸ hholds.mem)) rfl

theorem leads_of_room (hrunning : w.running = true) (hneeds : w.needsRelay = true) {r : Node} (hr : r ∈ w.activeNodes)
    (heligible : w.eligible s r = true) (halive : r.id ∉ dead) (hnew : r.id ∉ w.relayIDs)
    (hroom : w.reservationClients.length < maxReservationRelays) :
    Leads (step s) (Continues dead) (Holds r.id) w := by
  have hperm : (r :: w.activeNodes.erase r).isPerm w.activeNodes = true := isPerm_iff.mpr (perm_cons_erase hr).symm
  have hhead := phase_ensureReservations hneeds hroom heligible hnew (w.activeNodes.erase r)
  have hrun : (w.ensureReservations s (r :: w.activeNodes.erase r)).running = true := by
    rw [ensureReservations]
    split
    · exact hrunning
    · split <;> exact hrunning
  have hdialing := @phase_setPhase_self _ _ .dialing _ hhead
  refine .after (a := .tick (r :: w.activeNodes.erase r)) trivial (if_pos ⟨hrunning, hperm⟩) ?_
  refine .after (a := .attempt r.id) trivial (if_pos ⟨hrun, hhead⟩) ?_
  refine .after (a := .dialed r.id true) (by simp [Continues, halive])
    ((if_pos hdialing).trans (if_pos rfl)) (.now ⟨?_, ?_⟩)
  · exact mem_reservedIDs_setReserved _ r.id
  · exact phase_setPhase_self ((phase_setReserved _ _ _ _).trans hdialing)

/-- A running node that needs a relay and has lost those it reserved with comes to hold a circuit through any relay
    that is active, may be reserved with and is alive exactly when it has a place left: a tick and an attempt do. --/
theorem circuit_regained (s : Sender) {w : Reservations} (hrunning : w.running = true) (hneeds : w.needsRelay = true)
    {dead : List String} (hdead : ∀ l ∈ w.reservationClients, l.relayID ∈ dead) {r : Node} (hr : r ∈ w.activeNodes)
    (heligible : w.eligible s r = true) (halive : r.id ∉ dead) :
    Leads (step s) (Continues dead) (Holds r.id) w ↔ w.reservationClients.length < maxReservationRelays := by
  have hnew : r.id ∉ w.relayIDs := by
    intro hmem
    obtain ⟨l, hl, hid⟩ := mem_map.mp hmem
    exact halive (hid ▸ hdead l hl)
  refine ⟨fun hleads => ?_, leads_of_room hrunning hneeds hr heligible halive hnew⟩
  by_contra hfull
  refine not_leads_of_full ?_ hnew hleads
  rw [relayIDs, length_map]
  exact Nat.le_of_not_lt hfull

/-! ### Two dead relays -/

section
open Sender.Trio

def ofDead : List Event :=
  [.peers [peer "a" 1, peer "b" 2], .tick [peer "a" 1, peer "b" 2], .attempt "a", .dialed "a" true, .attempt "b",
    .dialed "b" true,
    .dropped "a", .dropped "b", .peers [peer "c" 3]]

def ofOneDead : List Event :=
  [.peers [peer "a" 1], .tick [peer "a" 1], .attempt "a", .dialed "a" true, .dropped "a", .peers [peer "c" 3]]

def onlyDead : Reservations :=
  { init true with
    activeNodes := [peer "c" 3]
    reservationClients := [⟨"a", "a:1", .waiting⟩] }

theorem circuit_regained_third :
    exec (step sender) (init true) ofOneDead = some onlyDead ∧
      Leads (step sender) (Continues ["a"]) (Holds "c") onlyDead :=
  ⟨by decide +kernel, (@circuit_regained sender onlyDead rfl rfl ["a"] (by decide +kernel) (peer "c" 3)
    (by decide +kernel) (by decide +kernel) (by decide +kernel)).mpr (by decide +kernel)⟩

def bothDead : Reservations :=
  { init true with
    activeNodes := [peer "c" 3]
    reservationClients := [⟨"a", "a:1", .waiting⟩, ⟨"b", "b:1", .waiting⟩] }

/-- Both places are taken by relays that are gone, and no continuation gives the node a circuit through the third. --/
theorem circuit_lost :
    exec (step sender) (init true) ofDead = some bothDead ∧ bothDead.running = true ∧ bothDead.needsRelay = true ∧
    (∀ l ∈ bothDead.reservationClients, l.relayID ∈ ["a", "b"]) ∧ peer "c" 3 ∈ bothDead.activeNodes ∧
    bothDead.eligible sender (peer "c" 3) = true ∧
      ¬ Leads (step sender) (Continues ["a", "b"]) (Holds "c") bothDead := by
  refine ⟨by decide +kernel, rfl, rfl, by decide +kernel, by decide +kernel, by decide +kernel, ?_⟩
  exact not_leads_of_full (by decide +kernel) (by decide +kernel)

end

end Reservations
end SyncSwarm.Transfer
