import SyncSwarm.Transfer.Direct
import SyncSwarm.Theorems.Ingest.Objects

/-! The two ends of a direct connection in lockstep: at most one packet or acknowledgement is on its way. -/

namespace SyncSwarm.Transfer
open Lib Protocol Fragment List Option

def State.outcome (st : State) (t : Config) (rs : ReedSolomon) (ref : Nat) : List Dispatch :=
  if st.isTransferComplete && st.stream.isNone then
    match t.reassemble rs st.toTransferState with
    | .ok data => [⟨ref, st.id, data, st.scheme.isVariable, st.ackSenders⟩]
    | .error _ => []
  else []

def State.leaves (st : State) : Bool := st.stream.isNone && st.isTransferComplete

/-- The states that a program takes its transfer through. --/
structure Course (prog : Program) (t : Config) (rs : ReedSolomon) (before : Receiver) where
  up : before.down = false
  ref : Nat
  point : UInt32
  st : Nat → State
  entry : (before.connect prog.init).table.get? prog.init.id = some ref
  conn : (before.connect prog.init).conns[before.conns.length]? =
    some ⟨ref, prog.init.id, prog.init.resumable && prog.init.streaming, .reading⟩
  opened : (before.connect prog.init).objects[ref]? = some (st 0)
  told : (before.connect prog.init).resumePoint before.conns.length prog.init = point
  fits : ∀ p ∈ (prog.body point).1, prog.fits p
  absorbs : ∀ k p, (prog.body point).1[k]? = some p → (st k).processChunk t rs p = .ok (st (k + 1))
  stays : ∀ k < (prog.body point).1.length, (st k).leaves = false
  sound : (st (prog.body point).1.length).leaves →
    ∀ text, t.reassemble rs (st (prog.body point).1.length).toTransferState ≠ .error (.panic text)

namespace Course
variable {prog : Program} {t : Config} {rs : ReedSolomon} {before w u : Receiver} {C : Course prog t rs before}
  {k : Nat} {phase : ConnPhase}
  {ds : List Dispatch} {p : Packet} {rest : List Packet}

def packets (C : Course prog t rs before) : List Packet := (prog.body C.point).1

def err (C : Course prog t rs before) : Option String := (prog.body C.point).2

def keep (_ : Course prog t rs before) : Bool := prog.init.resumable && prog.init.streaming

structure Rx (C : Course prog t rs before) (k : Nat) (phase : ConnPhase) (ds : List Dispatch) (w : Receiver) :
    Prop where
  up : w.down = false
  conn : w.conns[before.conns.length]? = some ⟨C.ref, prog.init.id, C.keep, phase⟩
  object : w.objects[C.ref]? = some (C.st k)
  dispatched : w.dispatched = before.dispatched ++ ds
  entry : w.table.get? prog.init.id =
    if phase = .closed ∧ (C.keep && !(C.st k).isTransferComplete) = false then none else some C.ref

theorem rx_connect (C : Course prog t rs before) : C.Rx 0 .reading [] (before.connect prog.init) where
  up := by
    rw [Receiver.connect]
    split <;> exact C.up
  conn := C.conn
  object := C.opened
  dispatched := by
    rw [append_nil, Receiver.connect]
    split <;> rfl
  entry := by
    rw [if_neg (by simp)]
    exact C.entry

theorem step_eq (h : w.down = false) (a : Action) : w.step t rs a = w.act t rs a := by
  rw [Receiver.step, h]
  rfl

namespace Rx

theorem setConn (h : C.Rx k phase ds w) {φ : ConnPhase} (hopen : phase ≠ .closed) (hφ : φ ≠ .closed) :
    C.Rx k φ ds (w.setConn before.conns.length ⟨C.ref, prog.init.id, C.keep, phase⟩ φ) where
  up := h.up
  conn := by
    rw [Receiver.setConn, getElem?_set_self', h.conn]
    rfl
  object := h.object
  dispatched := h.dispatched
  entry := by
    rw [if_neg (fun hc => hφ hc.1)]
    have hentry := h.entry
    rwa [if_neg (fun hc => hopen hc.1)] at hentry

/-! What the receiver's moves do, each in its phase. -/

theorem chunk (h : C.Rx k .reading ds w) (hp : C.packets[k]? = some p) :
    ∃ u, w.step t rs (if prog.fits p then .chunk before.conns.length p else .eof before.conns.length) = some u ∧
      C.Rx (k + 1) .acking ds u := by
  rw [if_pos (C.fits p (mem_of_getElem? hp)), step_eq h.up, Receiver.act, h.conn, bind_some, if_pos rfl, h.object,
    map_some, Receiver.chunk, C.absorbs k p hp]
  have hset := h.setConn (φ := .acking) (by simp) (by simp)
  refine ⟨_, rfl, ⟨hset.up, hset.conn, ?_, hset.dispatched, ?_⟩⟩
  · exact (getElem?_set_self' ..).trans (by rw [h.object]; rfl)
  · rw [if_neg (by simp)]
    exact h.entry.trans (if_neg (by simp))

theorem ack (h : C.Rx k .acking ds w) :
    ∃ u, w.step t rs (.ack before.conns.length) = some u ∧
      C.Rx k (if (C.st k).leaves then .leaving else .reading) ds u := by
  rw [step_eq h.up, Receiver.act, h.conn, bind_some, if_pos rfl, h.object, map_some, Receiver.ack]
  refine ⟨_, rfl, h.setConn nofun ?_⟩
  split <;> nofun

theorem eof (h : C.Rx k .reading ds w) :
    ∃ u, w.step t rs (.eof before.conns.length) = some u ∧ C.Rx k .leaving ds u := by
  rw [step_eq h.up, Receiver.act, h.conn, bind_some, if_pos rfl]
  exact ⟨_, rfl, h.setConn nofun nofun⟩

theorem finish (h : C.Rx k .leaving [] w) (hk : k ≤ C.packets.length) :
    ∃ u, w.step t rs (.finish before.conns.length) = some u ∧ C.Rx k .closing ((C.st k).outcome t rs C.ref) u := by
  have hset := h.setConn (φ := .closing) nofun nofun
  rw [step_eq h.up, Receiver.act, h.conn, bind_some, if_pos rfl, h.object, map_some, Receiver.finish, State.outcome]
  split
  next hdone =>
    rw [Bool.and_comm] at hdone
    have hlast : k = C.packets.length := by
      by_contra hne
      cases (C.stays k (Nat.lt_of_le_of_ne hk hne)).symm.trans hdone
    split
    next data hdata =>
      refine ⟨_, rfl, ⟨hset.up, hset.conn, hset.object, ?_, hset.entry⟩⟩
      rw [Receiver.setConn, Receiver.log, h.dispatched, append_nil, hdata]
    next e he =>
      rw [he]
      exact ⟨_, rfl, hset⟩
    · next text htext => exact absurd (hlast ▸ htext) (C.sound (hlast ▸ hdone) text)
  · exact ⟨_, rfl, hset⟩

theorem close (h : C.Rx k .closing ds w) :
    ∃ u, w.step t rs (.close before.conns.length) = some u ∧ C.Rx k .closed ds u := by
  rw [step_eq h.up, Receiver.act, h.conn, bind_some, if_pos rfl, h.object, map_some, Receiver.close]
  have hconn :
    (w.setConn before.conns.length ⟨C.ref, prog.init.id, C.keep, .closing⟩ .closed).conns[before.conns.length]? =
      some ⟨C.ref, prog.init.id, C.keep, .closed⟩ := by
    rw [Receiver.setConn, getElem?_set_self', h.conn]
    rfl
  split
  next hkeep =>
    refine ⟨_, rfl, ⟨h.up, hconn, h.object, h.dispatched, ?_⟩⟩
    rw [if_neg (fun hc => by rw [hkeep] at hc; cases hc.2)]
    exact h.entry.trans (if_neg (by simp))
  next hkeep =>
    refine ⟨_, rfl, ⟨h.up, hconn, h.object, h.dispatched, ?_⟩⟩
    rw [if_pos ⟨rfl, Bool.eq_false_iff.mpr hkeep⟩]
    exact GoMap.get?_delete_self _ _

/-! The receiver moves in no other phase. -/

theorem phase_of_ack (h : C.Rx k phase ds w) (hstep : w.step t rs (.ack before.conns.length) = some u) :
    phase = .acking := by
  rw [step_eq h.up, Receiver.act, h.conn, bind_some] at hstep
  exact (ite_none_right_eq_some.mp hstep).1

theorem phase_of_eof (h : C.Rx k phase ds w) (hstep : w.step t rs (.eof before.conns.length) = some u) :
    phase = .reading := by
  rw [step_eq h.up, Receiver.act, h.conn, bind_some] at hstep
  exact (ite_none_right_eq_some.mp hstep).1

theorem phase_of_finish (h : C.Rx k phase ds w) (hstep : w.step t rs (.finish before.conns.length) = some u) :
    phase = .leaving := by
  rw [step_eq h.up, Receiver.act, h.conn, bind_some] at hstep
  exact (ite_none_right_eq_some.mp hstep).1

theorem phase_of_close (h : C.Rx k phase ds w) (hstep : w.step t rs (.close before.conns.length) = some u) :
    phase = .closing := by
  rw [step_eq h.up, Receiver.act, h.conn, bind_some] at hstep
  exact (ite_none_right_eq_some.mp hstep).1

end Rx
variable (C) in
def After (k : Nat) (phase : ConnPhase) (ds : List Dispatch) : Prop :=
  phase = .leaving ∧ ds = [] ∨ (phase = .closing ∨ phase = .closed) ∧ ds = (C.st k).outcome t rs C.ref

variable (C) in
/-- With `k` packets acknowledged the receiver waits for the next one, or has all of them and does
    not wait for the end. --/
def Resting (k : Nat) (phase : ConnPhase) (ds : List Dispatch) : Prop :=
  phase = .reading ∧ ds = [] ∨ k = C.packets.length ∧ C.After k phase ds

def moves : ConnPhase → Nat
  | .acking => 5
  | .reading => 3
  | .leaving => 2
  | .closing => 1
  | .closed => 0

variable (C) in
/-- The states of a connection that holds, with a bound on the moves that are left. --/
inductive Lock : Nat → Session → Prop
  | fresh : Lock (4 * C.packets.length + 8) (.new before)
  | opened : Lock (4 * C.packets.length + 7) ⟨.opening, [prog.init], [], before, before.conns.length⟩
  | greeted {phase : ConnPhase} {ds : List Dispatch} {w : Receiver} (hrest : C.Resting 0 phase ds)
    (h : C.Rx 0 phase ds w) :
    Lock (4 * C.packets.length + 2 + moves phase) ⟨.opening, [], [C.point], w, before.conns.length⟩
  | sending {k : Nat} {phase : ConnPhase} {ds : List Dispatch} {w : Receiver} (hk : k ≤ C.packets.length)
    (hrest : C.Resting k phase ds) (h : C.Rx k phase ds w) :
    Lock (4 * (C.packets.length - k) + 1 + moves phase) ⟨.writing (C.packets.drop k) C.err, [], [], w,
      before.conns.length⟩
  | sent {k : Nat} {p : Packet} {w : Receiver} (hp : C.packets[k]? = some p) (h : C.Rx k .reading [] w) :
    Lock (4 * (C.packets.length - k) + 3) ⟨.awaiting (C.packets.drop (k + 1)) C.err, [p], [], w, before.conns.length⟩
  | taken {k : Nat} {w : Receiver} (hk : k < C.packets.length) (h : C.Rx (k + 1) .acking [] w) :
    Lock (4 * (C.packets.length - k) + 2) ⟨.awaiting (C.packets.drop (k + 1)) C.err, [], [], w, before.conns.length⟩
  | acked {k : Nat} {phase : ConnPhase} {ds : List Dispatch} {w : Receiver} (hk : k < C.packets.length)
    (hrest : C.Resting (k + 1) phase ds) (h : C.Rx (k + 1) phase ds w) :
    Lock (4 * (C.packets.length - (k + 1)) + 2 + moves phase)
      ⟨.awaiting (C.packets.drop (k + 1)) C.err, [], [0], w, before.conns.length⟩
  | returned {phase : ConnPhase} {ds : List Dispatch} {w : Receiver} (hrest : C.Resting C.packets.length phase ds)
    (h : C.Rx C.packets.length phase ds w) : Lock (moves phase) ⟨.returned C.err, [], [], w, before.conns.length⟩

variable {s s' : Session} {mv : Session.Move} {a : Action}

theorem Rx.conn_lt (h : C.Rx k phase ds w) : before.conns.length < w.conns.length :=
  (lt_of_getElem? h.conn)

theorem Rx.not_hung (h : C.Rx k phase ds w) (hopen : phase ≠ .closed) (tx : Tx) (wire : List Packet)
    (acks : List UInt32) :
    Session.rxClosed ⟨tx, wire, acks, w, before.conns.length⟩ = false := by
  rw [Session.rxClosed, h.conn]
  exact decide_eq_false hopen

theorem Rx.not_accepted (h : C.Rx k phase ds w) (tx : Tx) (wire : List Packet) (acks : List UInt32) :
    Session.step prog t rs ⟨tx, wire, acks, w, before.conns.length⟩ .accept = none := by
  cases wire with
  | nil => rfl
  | cons p wire => exact if_neg (Nat.ne_of_gt h.conn_lt)

theorem quiet (C : Course prog t rs before) (ha : a = .ack before.conns.length ∨ a = .eof before.conns.length ∨
    a = .finish before.conns.length ∨ a = .close before.conns.length ∨ a = .fail before.conns.length ∨
    ∃ p, a = .chunk before.conns.length p) : before.step t rs a = none := by
  have hnone : before.conns[before.conns.length]? = none := getElem?_eq_none (Nat.le_refl _)
  rw [step_eq C.up]
  rcases ha with rfl | rfl | rfl | rfl | rfl | ⟨p, rfl⟩ <;> rw [Receiver.act, hnone] <;> rfl

theorem accept (C : Course prog t rs before) (tx : Tx) (acks : List UInt32) :
    Session.step prog t rs ⟨tx, [prog.init], acks, before, before.conns.length⟩ .accept =
      some ⟨tx, [], acks ++ [C.point], before.connect prog.init, before.conns.length⟩ := by
  simp only [Session.step, Session.receive, step_eq C.up, Receiver.act, map_some, C.told, if_true]

theorem receive_eq_some {wire : List Packet} {acks : List UInt32} (h : s.receive t rs a wire acks = some s') :
    ∃ u, s.rx.step t rs a = some u ∧ s' = { s with rx := u, wire, acks } := by
  obtain ⟨u, hu, rfl⟩ := map_eq_some_iff.mp h
  exact ⟨u, hu, rfl⟩

theorem Resting.leave (hrest : C.Resting k phase ds) (h : C.Rx k phase ds w)
    (ha : a = .finish before.conns.length ∨ a = .close before.conns.length) (hstep : w.step t rs a = some u) :
    ∃ φ es, C.Resting k φ es ∧ C.Rx k φ es u ∧ moves φ < moves phase := by
  rcases ha with rfl | rfl
  · obtain rfl := h.phase_of_finish hstep
    rcases hrest with ⟨h', _⟩ | ⟨hlast, ⟨_, rfl⟩ | ⟨h' | h', _⟩⟩
    · cases h'
    · obtain ⟨v, hv, hrx⟩ := h.finish (Nat.le_of_eq hlast)
      cases hv.symm.trans hstep
      exact ⟨_, _, .inr ⟨hlast, .inr ⟨.inl rfl, rfl⟩⟩, hrx, by decide⟩
    · cases h'
    · cases h'
  · obtain rfl := h.phase_of_close hstep
    rcases hrest with ⟨h', _⟩ | ⟨hlast, ⟨h', _⟩ | ⟨_, rfl⟩⟩
    · cases h'
    · cases h'
    · obtain ⟨v, hv, hrx⟩ := h.close
      cases hv.symm.trans hstep
      exact ⟨_, _, .inr ⟨hlast, .inr ⟨.inr rfl, rfl⟩⟩, hrx, by decide⟩

theorem Resting.not_acking (hrest : C.Resting k phase ds) : phase ≠ .acking := by
  rintro rfl
  rcases hrest with ⟨h, _⟩ | ⟨_, ⟨h, _⟩ | ⟨h | h, _⟩⟩ <;> cases h

theorem Resting.of_before (hrest : C.Resting k phase ds) (hk : k < C.packets.length) : phase = .reading ∧ ds = [] := by
  rcases hrest with h | ⟨h, _⟩
  · exact h
  · omega

theorem Resting.move (hrest : C.Resting k phase ds) (h : C.Rx k phase ds w) {tx : Tx} {acks : List UInt32}
    (hopen : Session.txClosed tx = false) (hmv : mv = .ack ∨ mv = .eof ∨ mv = .finish ∨ mv = .close)
    (hstep : Session.step prog t rs ⟨tx, [], acks, w, before.conns.length⟩ mv = some s') :
    ∃ φ es u, C.Resting k φ es ∧ C.Rx k φ es u ∧ moves φ < moves phase ∧
      s' = ⟨tx, [], acks, u, before.conns.length⟩ := by
  rcases hmv with rfl | rfl | rfl | rfl
  · obtain ⟨u, hu, rfl⟩ := receive_eq_some hstep
    exact absurd (h.phase_of_ack hu) hrest.not_acking
  · rw [Session.step, hopen, if_neg (fun h => nomatch h.2)] at hstep
    cases hstep
  · obtain ⟨u, hu, rfl⟩ := receive_eq_some hstep
    obtain ⟨φ, es, hrest', h', hlt⟩ := hrest.leave h (.inl rfl) hu
    exact ⟨φ, es, u, hrest', h', hlt, rfl⟩
  · obtain ⟨u, hu, rfl⟩ := receive_eq_some hstep
    obtain ⟨φ, es, hrest', h', hlt⟩ := hrest.leave h (.inr rfl) hu
    exact ⟨φ, es, u, hrest', h', hlt, rfl⟩

theorem drop_cases (hk : k ≤ C.packets.length) : k = C.packets.length ∧ C.packets.drop k = [] ∨
    ∃ p, C.packets[k]? = some p ∧ k < C.packets.length ∧ C.packets.drop k = p :: C.packets.drop (k + 1) := by
  rcases Nat.eq_or_lt_of_le hk with rfl | hlt
  · exact .inl ⟨rfl, drop_length⟩
  · exact .inr ⟨_, getElem?_eq_getElem hlt, hlt, drop_eq_getElem_cons hlt⟩

namespace Lock
variable {n : Nat}

theorem step_sending (hk : k ≤ C.packets.length) (hrest : C.Resting k phase ds) (h : C.Rx k phase ds w)
    (hmv : mv.reliable)
    (hstep : Session.step prog t rs ⟨.writing (C.packets.drop k) C.err, [], [], w, before.conns.length⟩ mv = some s') :
    ∃ m < 4 * (C.packets.length - k) + 1 + moves phase, C.Lock m s' := by
  cases mv with
  | write =>
    obtain ⟨rfl, hdrop⟩ | ⟨p, hp, hlt, hdrop⟩ := drop_cases hk <;> rw [hdrop] at hstep <;> cases hstep
    obtain ⟨rfl, rfl⟩ := hrest.of_before hlt
    exact ⟨_, Nat.lt_succ_self _, .sent hp h⟩
  | «return» =>
    obtain ⟨rfl, hdrop⟩ | ⟨p, hp, hlt, hdrop⟩ := drop_cases hk <;> rw [hdrop] at hstep <;> cases hstep
    exact ⟨_, by omega, .returned hrest h⟩
  | hungUp =>
    obtain ⟨rfl, hdrop⟩ | ⟨p, hp, hlt, hdrop⟩ := drop_cases hk <;> rw [hdrop] at hstep
    · cases hstep
    · obtain ⟨rfl, rfl⟩ := hrest.of_before hlt
      rw [Session.step, h.not_hung nofun] at hstep
      cases hstep
  | ack | eof | finish | close =>
    obtain ⟨φ, es, u, hrest', h', hlt, rfl⟩ := hrest.move h rfl (by simp) hstep
    exact ⟨_, Nat.add_lt_add_left hlt _, .sending hk hrest' h'⟩
  | broken | fail => cases hmv
  | _ => cases hstep

theorem step_sent (hp : C.packets[k]? = some p) (h : C.Rx k .reading [] w) (hmv : mv.reliable)
    (hstep : Session.step prog t rs ⟨.awaiting (C.packets.drop (k + 1)) C.err, [p], [], w,
      before.conns.length⟩ mv = some s') :
    ∃ m < 4 * (C.packets.length - k) + 3, C.Lock m s' := by
  cases mv with
  | accept => cases (h.not_accepted ..).symm.trans hstep
  | read =>
    obtain ⟨u, hu, rfl⟩ := receive_eq_some hstep
    obtain ⟨v, hv, hrx⟩ := h.chunk hp
    cases hv.symm.trans hu
    exact ⟨_, Nat.lt_succ_self _, .taken (lt_of_getElem? hp) hrx⟩
  | eof =>
    rw [Session.step, if_neg (fun h => nomatch h.2)] at hstep
    cases hstep
  | ack =>
    obtain ⟨u, hu, rfl⟩ := receive_eq_some hstep
    cases h.phase_of_ack hu
  | finish =>
    obtain ⟨u, hu, rfl⟩ := receive_eq_some hstep
    cases h.phase_of_finish hu
  | close =>
    obtain ⟨u, hu, rfl⟩ := receive_eq_some hstep
    cases h.phase_of_close hu
  | hungUp =>
    rw [Session.step, h.not_hung nofun] at hstep
    cases hstep
  | broken | fail => cases hmv
  | _ => cases hstep

theorem resting_of_ack (hk : k < C.packets.length) :
    C.Resting (k + 1) (if (C.st (k + 1)).leaves then .leaving else .reading) [] := by
  split
  next hleaves =>
    have hlast : k + 1 = C.packets.length := by
      by_contra hne
      rw [C.stays (k + 1) (Nat.lt_of_le_of_ne hk hne)] at hleaves
      cases hleaves
    exact .inr ⟨hlast, .inl ⟨rfl, rfl⟩⟩
  · exact .inl ⟨rfl, rfl⟩

theorem step_taken (hk : k < C.packets.length) (h : C.Rx (k + 1) .acking [] w) (hmv : mv.reliable)
    (hstep : Session.step prog t rs ⟨.awaiting (C.packets.drop (k + 1)) C.err, [], [], w,
      before.conns.length⟩ mv = some s') :
    ∃ m < 4 * (C.packets.length - k) + 2, C.Lock m s' := by
  cases mv with
  | ack =>
    obtain ⟨u, hu, rfl⟩ := receive_eq_some hstep
    obtain ⟨v, hv, hrx⟩ := h.ack
    cases hv.symm.trans hu
    refine ⟨_, ?_, .acked hk (resting_of_ack hk) hrx⟩
    have hmoves : moves (if (C.st (k + 1)).leaves then .leaving else .reading) ≤ 3 := by
      split <;> decide
    omega
  | finish =>
    obtain ⟨u, hu, rfl⟩ := receive_eq_some hstep
    cases h.phase_of_finish hu
  | close =>
    obtain ⟨u, hu, rfl⟩ := receive_eq_some hstep
    cases h.phase_of_close hu
  | hungUp =>
    rw [Session.step, h.not_hung nofun] at hstep
    cases hstep
  | broken | fail => cases hmv
  | _ => cases hstep

theorem step_returned (hrest : C.Resting C.packets.length phase ds) (h : C.Rx C.packets.length phase ds w)
    (hmv : mv.reliable)
    (hstep : Session.step prog t rs ⟨.returned C.err, [], [], w, before.conns.length⟩ mv = some s') :
    ∃ m < moves phase, C.Lock m s' := by
  cases mv with
  | ack =>
    obtain ⟨u, hu, rfl⟩ := receive_eq_some hstep
    exact absurd (h.phase_of_ack hu) hrest.not_acking
  | eof =>
    obtain ⟨u, hu, rfl⟩ := receive_eq_some hstep
    obtain rfl := h.phase_of_eof hu
    obtain ⟨_, rfl⟩ | ⟨_, ⟨h', _⟩ | ⟨h' | h', _⟩⟩ := hrest
    · obtain ⟨v, hv, hrx⟩ := h.eof
      cases hv.symm.trans hu
      exact ⟨_, by decide, .returned (.inr ⟨rfl, .inl ⟨rfl, rfl⟩⟩) hrx⟩
    all_goals cases h'
  | finish =>
    obtain ⟨u, hu, rfl⟩ := receive_eq_some hstep
    obtain ⟨φ, es, hrest', h', hlt⟩ := hrest.leave h (.inl rfl) hu
    exact ⟨_, hlt, .returned hrest' h'⟩
  | close =>
    obtain ⟨u, hu, rfl⟩ := receive_eq_some hstep
    obtain ⟨φ, es, hrest', h', hlt⟩ := hrest.leave h (.inr rfl) hu
    exact ⟨_, hlt, .returned hrest' h'⟩
  | broken | fail => cases hmv
  | _ => cases hstep

theorem step (h : C.Lock n s) (hmv : mv.reliable) (hstep : s.step prog t rs mv = some s') : ∃ m < n, C.Lock m s' := by
  cases h with
  | fresh =>
    cases mv with
    | «open» =>
      cases hstep
      exact ⟨_, Nat.lt_succ_self _, .opened⟩
    | ack | finish | close =>
      obtain ⟨u, hu, rfl⟩ := receive_eq_some hstep
      cases (C.quiet (by simp [Session.new])).symm.trans hu
    | broken | fail => cases hmv
    | _ => cases hstep
  | opened =>
    cases mv with
    | accept =>
      cases (C.accept _ _).symm.trans hstep
      exact ⟨_, by simp only [moves]; omega, .greeted (.inl ⟨rfl, rfl⟩) C.rx_connect⟩
    | read =>
      obtain ⟨u, hu, rfl⟩ := receive_eq_some hstep
      cases (C.quiet (by split <;> simp)).symm.trans hu
    | ack | finish | close =>
      obtain ⟨u, hu, rfl⟩ := receive_eq_some hstep
      cases (C.quiet (by simp)).symm.trans hu
    | hungUp =>
      rw [Session.step, Session.rxClosed, getElem?_eq_none (Nat.le_refl _)] at hstep
      cases hstep
    | broken | fail => cases hmv
    | _ => cases hstep
  | greeted hrest h =>
    cases mv with
    | greeted =>
      cases hstep
      exact ⟨_, by omega, .sending (Nat.zero_le _) hrest h⟩
    | ack | eof | finish | close =>
      obtain ⟨φ, es, u, hrest', h', hlt, rfl⟩ := hrest.move h rfl (by simp) hstep
      exact ⟨_, Nat.add_lt_add_left hlt _, .greeted hrest' h'⟩
    | hungUp =>
      rw [Session.step, if_neg (fun h => nomatch h.2)] at hstep
      cases hstep
    | broken | fail => cases hmv
    | _ => cases hstep
  | sending hk hrest h => exact step_sending hk hrest h hmv hstep
  | sent hp h => exact step_sent hp h hmv hstep
  | taken hk h => exact step_taken hk h hmv hstep
  | acked hk hrest h =>
    cases mv with
    | confirmed =>
      cases hstep
      exact ⟨_, by omega, .sending hk hrest h⟩
    | ack | eof | finish | close =>
      obtain ⟨φ, es, u, hrest', h', hlt, rfl⟩ := hrest.move h rfl (by simp) hstep
      exact ⟨_, Nat.add_lt_add_left hlt _, .acked hk hrest' h'⟩
    | hungUp =>
      rw [Session.step, if_neg (fun h => nomatch h.2)] at hstep
      cases hstep
    | broken | fail => cases hmv
    | _ => cases hstep
  | returned hrest h => exact step_returned hrest h hmv hstep

theorem ended (h : C.Lock n s) (hstuck : ∀ mv : Session.Move, mv.reliable → s.step prog t rs mv = none) :
    ∃ w, s = ⟨.returned C.err, [], [], w, before.conns.length⟩ ∧
      C.Rx C.packets.length .closed ((C.st C.packets.length).outcome t rs C.ref) w := by
  cases h with
  | fresh => cases hstuck .open rfl
  | opened => cases (C.accept _ _).symm.trans (hstuck .accept rfl)
  | greeted hrest h => cases hstuck .greeted rfl
  | sending hk hrest h =>
    obtain ⟨rfl, hdrop⟩ | ⟨p, hp, hlt, hdrop⟩ := drop_cases hk <;> rw [hdrop] at hstuck
    · cases hstuck .return rfl
    · cases hstuck .write rfl
  | sent hp h =>
    obtain ⟨u, hu, -⟩ := h.chunk hp
    cases hu.symm.trans (map_eq_none_iff.mp (hstuck .read rfl))
  | taken hk h =>
    obtain ⟨u, hu, -⟩ := h.ack
    cases hu.symm.trans (map_eq_none_iff.mp (hstuck .ack rfl))
  | acked hk hrest h => cases hstuck .confirmed rfl
  | returned hrest h =>
    rcases hrest with ⟨rfl, rfl⟩ | ⟨-, ⟨rfl, rfl⟩ | ⟨rfl | rfl, rfl⟩⟩
    · obtain ⟨u, hu, -⟩ := h.eof
      cases hu.symm.trans (map_eq_none_iff.mp (hstuck .eof rfl))
    · obtain ⟨u, hu, -⟩ := h.finish (Nat.le_refl _)
      cases hu.symm.trans (map_eq_none_iff.mp (hstuck .finish rfl))
    · obtain ⟨u, hu, -⟩ := h.close
      cases hu.symm.trans (map_eq_none_iff.mp (hstuck .close rfl))
    · exact ⟨_, rfl, h⟩

theorem run {mvs : List Session.Move} (h : C.Lock n s) (hmvs : ∀ mv ∈ mvs, mv.reliable)
    (hrun : exec (Session.step prog t rs) s mvs = some s') : ∃ m, mvs.length + m ≤ n ∧ C.Lock m s' := by
  induction mvs generalizing n s with
  | nil =>
    cases hrun
    exact ⟨n, by simp, h⟩
  | cons mv mvs ih =>
    obtain ⟨u, hu, hrun⟩ := exec_cons.mp hrun
    obtain ⟨m, hm, h'⟩ := h.step (hmvs mv mem_cons_self) hu
    obtain ⟨m', hm', h''⟩ := ih h' (fun q hq => hmvs q (mem_cons_of_mem mv hq)) hrun
    exact ⟨m', by rw [length_cons]; omega, h''⟩

theorem runs (h : C.Lock n s) : ∃ mvs s', (∀ mv ∈ mvs, mv.reliable) ∧ exec (Session.step prog t rs) s mvs = some s' ∧
    ∀ mv : Session.Move, mv.reliable → s'.step prog t rs mv = none := by
  induction n using Nat.strong_induction_on generalizing s with
  | _ n ih =>
    by_cases hmove : ∃ (mv : Session.Move) (s' : Session), mv.reliable ∧ s.step prog t rs mv = some s'
    · obtain ⟨mv, s', hmv, hstep⟩ := hmove
      obtain ⟨m, hm, h'⟩ := h.step hmv hstep
      obtain ⟨mvs, s'', hmvs, hrun, hstuck⟩ := ih m hm h'
      exact ⟨mv :: mvs, s'', forall_mem_cons.mpr ⟨hmv, hmvs⟩, exec_cons.mpr ⟨s', hstep, hrun⟩, hstuck⟩
    · refine ⟨[], s, nofun, rfl, fun mv hmv => ?_⟩
      by_contra hsome
      obtain ⟨s', hs'⟩ := ne_none_iff_exists'.mp hsome
      exact hmove ⟨mv, s', hmv, hs'⟩

end Lock

end Course
end SyncSwarm.Transfer
