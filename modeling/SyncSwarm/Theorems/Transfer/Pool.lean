import SyncSwarm.Lib.Lists
import SyncSwarm.Lib.System
import SyncSwarm.Theorems.Protocol.Codec
import SyncSwarm.Transfer.Pool

/-! Connections that are shared through the pool: an open one is idle once, or in the hands of one call. -/

namespace SyncSwarm.Transfer
open Lib Protocol List

/-! ### What the calls on the pool do -/

namespace ConnPool
variable {p : ConnPool} {addr : String}

inductive Gets (p : ConnPool) (addr : String) : Option Nat × ConnPool → Prop
  | none : Gets p addr (none, p)
  | idle {q : List PooledConn} {pc : PooledConn} {p' : ConnPool} : p.queue addr = q ++ [pc] → p'.closed = p.closed →
      (∀ a, p'.queue a = if a = addr then q else p.queue a) → Gets p addr (some pc.conn, p')

inductive Puts (p : ConnPool) (addr : String) (conn : Nat) (now : Int) : List Nat × ConnPool → Prop
  | closes : Puts p addr conn now ([conn], p)
  | keeps {p' : ConnPool} : p.closed = false → (p.queue addr).length < maxIdlePerAddr → p'.closed = false →
      (∀ a, p'.queue a = if a = addr then p.queue addr ++ [⟨conn, now⟩] else p.queue a) → Puts p addr conn now ([], p')

/-- The idle connections that do not pass `f` are closed; a pool that closes on the way is empty. --/
structure Drops (p : ConnPool) (f : PooledConn → Bool) (out : List Nat × ConnPool) : Prop where
  queue : ∀ a, out.2.queue a = (p.queue a).filter f
  dead : ∀ c, c ∈ out.1 ↔ ∃ a, ∃ pc ∈ p.queue a, f pc = false ∧ pc.conn = c
  closed : out.2.closed = p.closed ∨ ∀ a, out.2.queue a = []

theorem queue_set (q : List PooledConn) (a : String) :
    queue { p with idle := p.idle.set addr q } a = if a = addr then q else p.queue a := by
  simp only [queue, GoMap.get?_set]
  split <;> rfl

theorem queue_delete (a : String) :
    queue { p with idle := p.idle.delete addr } a = if a = addr then [] else p.queue a := by
  by_cases ha : a = addr
  · subst ha
    simp [queue]
  · simp [queue, ha, GoMap.get?_delete_ne p.idle ha]

theorem get_spec (p : ConnPool) (addr : String) : Gets p addr (p.get addr) := by
  cases hlast : (p.queue addr).getLast? with
  | none =>
    simp only [get, hlast]
    exact .none
  | some pc =>
    obtain ⟨q, hq⟩ := getLast?_eq_some_iff.mp hlast
    simp only [get, hlast]
    refine .idle hq rfl fun a => ?_
    simp only [hq, length_append, length_cons, length_nil, dropLast_concat]
    split
    · next h => rw [queue_delete, length_eq_zero_iff.mp (Nat.succ.inj h)]
    · exact queue_set q a

theorem put_spec (p : ConnPool) (addr : String) (conn : Nat) (now : Int) :
    Puts p addr conn now (p.put addr conn now) := by
  unfold put
  split
  · exact .closes
  · next h =>
    simp only [Bool.or_eq_true, decide_eq_true_eq, not_or, Bool.not_eq_true, Nat.not_le] at h
    exact .keeps h.1 h.2 h.1 (queue_set _)

theorem mem_queue {a : String} {pc : PooledConn} : pc ∈ p.queue a ↔ ∃ e ∈ p.idle.entries, e.1 = a ∧ pc ∈ e.2 := by
  constructor
  · intro h
    cases hget : p.idle.get? a with
    | none => simp [queue, hget] at h
    | some q => exact ⟨(a, q), GoMap.mem_entries.mpr hget, rfl, by simpa [queue, hget] using h⟩
  · rintro ⟨⟨a, q⟩, he, rfl, hmem⟩
    simpa [queue, GoMap.mem_entries.mp he] using hmem

theorem reap_spec (iter : GoMap.Iteration String (List PooledConn)) (p : ConnPool) (now : Int) :
    p.Drops (fun c => !decide (c.lastUsed < now - connIdleTTL)) (p.reap iter now) := by
  have hfold : ∀ (l : List (String × List PooledConn)) out,
    (l.foldl (reapAddr (now - connIdleTTL)) out).2.closed = out.2.closed ∧
      (l.foldl (reapAddr (now - connIdleTTL)) out).1 =
        out.1 ++ l.flatMap fun e => (e.2.filter fun c => c.lastUsed < now - connIdleTTL).map (·.conn) := by
    intro l
    induction l with
    | nil => simp
    | cons e l ih => intro out; simp [ih, reapAddr]
  constructor
  · intro a
    have hview := iter.foldl_view p.idle (reapAddr (now - connIdleTTL)) (fun out a => out.2.queue a)
      (fun _ q => q.filter fun c => !decide (c.lastUsed < now - connIdleTTL)) ?_ ?_ ([], p) a
    · rw [reap, hview, queue]
      cases hget : p.idle.get? a with
      | none => simp
      | some q => rfl
    · intro out a q
      simp only [reapAddr]
      split
      · next h => rw [queue_delete, if_pos rfl, isEmpty_iff.mp h]
      · rw [queue_set, if_pos rfl]
    · intro out a q b hb
      simp only [reapAddr]
      split
      · rw [queue_delete, if_neg hb]
      · rw [queue_set, if_neg hb]
  · intro c
    rw [reap, (hfold _ _).2]
    simp only [nil_append, mem_flatMap, (iter.perm p.idle).mem_iff, mem_map, mem_filter, mem_queue, decide_eq_true_eq,
      Bool.not_eq_false']
    constructor
    · rintro ⟨e, he, pc, ⟨hmem, hold⟩, rfl⟩
      exact ⟨e.1, pc, ⟨e, he, rfl, hmem⟩, hold, rfl⟩
    · rintro ⟨a, pc, ⟨e, he, rfl, hmem⟩, hold, rfl⟩
      exact ⟨e, he, pc, ⟨hmem, hold⟩, rfl⟩
  · exact .inl (hfold _ _).1

theorem closeAll_spec (iter : GoMap.Iteration String (List PooledConn)) (p : ConnPool) :
    p.Drops (fun _ => false) (p.closeAll iter) := by
  have hempty : ∀ a, (p.closeAll iter).2.queue a = [] := fun a => by simp [closeAll, queue]
  refine ⟨fun a => by simp [hempty a], fun c => ?_, .inr hempty⟩
  simp only [closeAll, mem_flatMap, (iter.perm p.idle).mem_iff, mem_map, mem_queue, true_and]
  constructor
  · rintro ⟨e, he, pc, hmem, rfl⟩
    exact ⟨e.1, pc, ⟨e, he, rfl, hmem⟩, rfl⟩
  · rintro ⟨a, pc, ⟨e, he, rfl, hmem⟩, rfl⟩
    exact ⟨e, he, pc, hmem, rfl⟩

end ConnPool

/-! ### What a step does -/

namespace PooledCall

/-- The connection on which the call writes or has written. --/
def conn? (call : PooledCall) : Option Nat :=
  match call.point with
  | .writing c _ _ | .sent c => some c
  | .dialing | .failed => none

/-- The call is writing to the connection. --/
def holds (c : Nat) (call : PooledCall) : Bool :=
  match call.point with
  | .writing d _ _ => d == c
  | _ => false

theorem conn?_of_holds {c : Nat} {call : PooledCall} (h : call.holds c = true) : call.conn? = some c := by
  obtain ⟨addr, pkt, point⟩ := call
  cases point <;> simp_all [holds, conn?]

end PooledCall

namespace Pooling
open ConnPool
variable {w w' : Pooling} {a : PoolAct}

/-- What each action can do. --/
inductive Moves (w : Pooling) : Pooling → Prop
  | begins {addr : String} {pkt : SignedPacket} {out : Option Nat × ConnPool} : Gets w.pool addr out →
      Moves w { w with
        pool := out.2
        calls := w.calls ++ [⟨addr, pkt, out.1.elim .dialing fun c => .writing c false (writePacket pkt)⟩] }
  | writes {i n c : Nat} {call : PooledCall} {fresh : Bool} {left : Bytes} {x : Dialed} : w.calls[i]? = some call →
      call.point = .writing c fresh left → left ≠ [] → w.conns[c]? = some x →
      Moves w { w.moved i call (.writing c fresh (left.drop n)) with
        conns := w.conns.set c { x with written := x.written ++ left.take n } }
  | wrote {i c : Nat} {call : PooledCall} {fresh : Bool} {now : Int} {out : List Nat × ConnPool} :
    w.calls[i]? = some call →
      call.point = .writing c fresh [] → Puts w.pool call.addr c now out →
        Moves w ((w.moved i call (.sent c)).closing out)
  | broke {i c : Nat} {call : PooledCall} {fresh : Bool} {left : Bytes} {point : Point} : w.calls[i]? = some call →
      call.point = .writing c fresh left → left ≠ [] → point = .failed ∨ point = .dialing →
        Moves w ((w.moved i call point).closing ([c], w.pool))
  | dialed {i : Nat} {call : PooledCall} : w.calls[i]? = some call → call.point = .dialing →
      Moves w { w.moved i call (.writing w.conns.length true (writePacket call.pkt)) with
        conns := w.conns ++ [{ addr := call.addr }] }
  | missed {i : Nat} {call : PooledCall} : w.calls[i]? = some call → call.point = .dialing →
    Moves w (w.moved i call .failed)
  | drops {f : PooledConn → Bool} {out : List Nat × ConnPool} : w.pool.Drops f out → Moves w (w.closing out)

theorem step_moves (h : w.step a = some w') : Moves w w' := by
  cases a with
  | send addr pkt =>
    cases h
    exact .begins (get_spec w.pool addr)
  | reap iter now =>
    cases h
    exact .drops (reap_spec iter w.pool now)
  | stop iter =>
    cases h
    exact .drops (closeAll_spec iter w.pool)
  | write i n =>
    obtain ⟨call, hcall, h⟩ := Option.bind_eq_some_iff.mp h
    cases hp : call.point with
    | writing c fresh left =>
      simp only [hp] at h
      obtain ⟨x, hx, h⟩ := Option.bind_eq_some_iff.mp h
      simp only [Option.ite_none_right_eq_some, Option.some.injEq] at h
      obtain ⟨⟨-, hpos, hle⟩, rfl⟩ := h
      exact .writes hcall hp (length_pos_iff.mp (Nat.lt_of_lt_of_le hpos hle)) hx
    | _ => simp [hp] at h
  | wrote i now =>
    obtain ⟨call, hcall, h⟩ := Option.bind_eq_some_iff.mp h
    cases hp : call.point with
    | writing c fresh left =>
      cases left with
      | nil =>
        simp only [hp, Option.some.injEq] at h
        exact h ▸ .wrote hcall hp (put_spec _ _ _ _)
      | cons b left => simp [hp] at h
    | _ => simp [hp] at h
  | broke i =>
    obtain ⟨call, hcall, h⟩ := Option.bind_eq_some_iff.mp h
    cases hp : call.point with
    | writing c fresh left =>
      cases left with
      | nil => simp [hp] at h
      | cons b left =>
        simp only [hp, Option.some.injEq] at h
        refine h ▸ .broke hcall hp (cons_ne_nil b left) ?_
        cases fresh <;> simp
    | _ => simp [hp] at h
  | dial i up =>
    obtain ⟨call, hcall, h⟩ := Option.bind_eq_some_iff.mp h
    cases hp : call.point with
    | dialing =>
      cases up <;> simp only [hp, if_true, if_false, Bool.false_eq_true, Option.some.injEq] at h
      · exact h ▸ .missed hcall hp
      · exact h ▸ .dialed hcall hp
    | _ => simp [hp] at h

/-! ### Whose hands a connection is in -/

def addrs (w : Pooling) : List String := w.conns.map (·.addr)

/-- How many times the connection is idle under the address, and in how many calls' hands it is. --/
def hands (w : Pooling) (c : Nat) (addr : String) : Nat :=
  (w.pool.queue addr).countP (fun pc => pc.conn == c) + w.calls.countP (PooledCall.holds c)

/-- The invariant: a connection has one holder. --/
structure Shared (w : Pooling) : Prop where
  room : ∀ a, (w.pool.queue a).length ≤ maxIdlePerAddr
  stopped : w.pool.closed = true → ∀ a, w.pool.queue a = []
  idle : ∀ a, ∀ pc ∈ w.pool.queue a, w.addrs[pc.conn]? = some a
  held : ∀ call ∈ w.calls, ∀ c ∈ call.conn?, w.addrs[c]? = some call.addr
  once : ∀ c x, w.conns[c]? = some x → w.hands c x.addr = x.opened.toNat

theorem getElem?_closing (out : List Nat × ConnPool) (c : Nat) :
    (w.closing out).conns[c]? = w.conns[c]?.map fun x => { x with opened := x.opened && !out.1.contains c } :=
  getElem?_mapIdx

@[simp] theorem addrs_closing (out : List Nat × ConnPool) : (w.closing out).addrs = w.addrs := by
  refine ext_getElem? fun c => ?_
  rw [addrs, addrs, getElem?_map, getElem?_map, getElem?_closing, Option.map_map]
  rfl

theorem getElem?_addrs {c : Nat} {x : Dialed} (hx : w.conns[c]? = some x) :
    w.addrs[c]? = some x.addr := by simp [addrs, hx]

theorem exists_conn {c : Nat} {a : String} (h : w.addrs[c]? = some a) : ∃ x, w.conns[c]? = some x ∧ x.addr = a := by
  simpa [addrs] using h

namespace Shared
variable {i c : Nat} {call : PooledCall} {point : Point} {fresh : Bool} {left : Bytes} {x : Dialed}

theorem opened_of_hands (h : w.Shared) (hx : w.conns[c]? = some x) (hpos : 0 < w.hands c x.addr) : x.opened = true := by
  cases ho : x.opened with
  | true => rfl
  | false => simp [h.once c x hx, ho] at hpos

theorem opened_of_holds (h : w.Shared) (hi : w.calls[i]? = some call) (hc : call.holds c = true) :
    ∃ x, w.conns[c]? = some x ∧ x.addr = call.addr ∧ x.opened = true ∧ w.hands c x.addr = 1 := by
  obtain ⟨x, hx, haddr⟩ := exists_conn (h.held call (mem_of_getElem? hi) c (PooledCall.conn?_of_holds hc))
  have hpos : 0 < w.calls.countP (PooledCall.holds c) := countP_pos_iff.mpr ⟨call, mem_of_getElem? hi, hc⟩
  have hopen := h.opened_of_hands hx (Nat.add_pos_right _ hpos)
  exact ⟨x, hx, haddr, hopen, by rw [h.once c x hx, hopen]; rfl⟩

theorem held_moved (h : w.Shared) {l : List String} (hl : w.addrs <+: l)
    (hnew : ∀ c ∈ ({ call with point := point } : PooledCall).conn?, l[c]? = some call.addr) :
    ∀ b ∈ (w.moved i call point).calls, ∀ c ∈ b.conn?, l[c]? = some b.addr := by
  intro b hb c hc
  rcases mem_or_eq_of_mem_set hb with hb | rfl
  · exact getElem?_mono hl (h.held b hb c hc)
  · exact hnew c hc

/-- A call moves on, the pool stays as it is, and the open connections balance. --/
theorem goes (h : w.Shared) (hi : w.calls[i]? = some call) (hcalls : w'.calls = (w.moved i call point).calls)
    (hpool : w'.pool = w.pool) (haddrs : w.addrs <+: w'.addrs)
    (hnew : ∀ c ∈ ({ call with point := point } : PooledCall).conn?, w'.addrs[c]? = some call.addr)
    (honce : ∀ c x, w'.conns[c]? = some x → w.hands c x.addr + (PooledCall.holds c { call with point := point }).toNat =
      x.opened.toNat + (call.holds c).toNat) :
    w'.Shared := by
  refine ⟨?_, ?_, ?_, ?_, fun c x hx => ?_⟩
  · rw [hpool]
    exact h.room
  · rw [hpool]
    exact h.stopped
  · rw [hpool]
    exact fun a pc hpc => getElem?_mono haddrs (h.idle a pc hpc)
  · rw [hcalls]
    exact h.held_moved haddrs hnew
  · have hcount := countP_set_add hi { call with point := point } (PooledCall.holds c)
    have hbal := honce c x hx
    simp only [hands, hcalls, hpool, moved] at hbal ⊢
    omega

theorem new : ({} : Pooling).Shared := by
  constructor
  all_goals simp [ConnPool.queue]

theorem begins (h : w.Shared) {addr : String} {pkt : SignedPacket} {out : Option Nat × ConnPool}
    (hget : Gets w.pool addr out) :
    Shared { w with
      pool := out.2
      calls := w.calls ++ [⟨addr, pkt, out.1.elim .dialing fun c => .writing c false (writePacket pkt)⟩] } := by
  cases hget with
  | none =>
    refine ⟨h.room, h.stopped, h.idle, fun call hcall c hc => ?_, fun c x hx => ?_⟩
    · rcases mem_append_single.mp hcall with hcall | rfl
      · exact h.held call hcall c hc
      · simp [PooledCall.conn?] at hc
    · rw [← h.once c x hx]
      simp [hands, countP_append, PooledCall.holds]
  | @idle q pc p' hq hclosed hqueue =>
    have hpc : w.addrs[pc.conn]? = some addr := h.idle addr pc (by simp [hq])
    refine ⟨fun a => ?_, fun hc a => ?_, fun a b hb => ?_, fun call hcall c hc => ?_, fun c x hx => ?_⟩
    · have hroom := h.room addr
      rw [hq, length_append] at hroom
      rw [hqueue]
      split
      · omega
      · exact h.room a
    · have hempty := h.stopped (hclosed ▸ hc) addr
      simp [hq] at hempty
    · refine h.idle a b ?_
      rw [hqueue] at hb
      split at hb
      · next ha => rw [ha, hq]; exact mem_append_left _ hb
      · exact hb
    · rcases mem_append_single.mp hcall with hcall | rfl
      · exact h.held call hcall c hc
      · obtain rfl : pc.conn = c := by simpa [PooledCall.conn?] using hc
        exact hpc
    · -- The connection leaves the queue for the hands of the call.
      rw [← h.once c x hx]
      simp only [hands, hqueue, countP_append, countP_singleton, Option.elim_some, PooledCall.holds]
      by_cases ha : x.addr = addr
      · simp [ha, hq]
        omega
      · have hc : pc.conn ≠ c := by
          rintro rfl
          exact ha (Option.some.inj ((getElem?_addrs hx).symm.trans hpc))
        simp [ha, hc]

theorem writes (h : w.Shared) {rest more : Bytes} (hi : w.calls[i]? = some call)
    (hpoint : call.point = .writing c fresh left) (hx : w.conns[c]? = some x) :
    Shared { w.moved i call (.writing c fresh rest) with
      conns := w.conns.set c { x with written := x.written ++ more } } := by
  have haddrs : (w.conns.set c { x with written := x.written ++ more }).map (·.addr) = w.addrs :=
    map_set_of_eq hx (·.addr) rfl
  refine h.goes hi rfl rfl ⟨[], (append_nil _).trans haddrs.symm⟩ (fun d hd => ?_) fun d y hy => ?_
  · rw [addrs, haddrs]
    exact h.held call (mem_of_getElem? hi) d (by simpa [PooledCall.conn?, hpoint] using hd)
  · have hholds : call.holds d = PooledCall.holds d { call with point := .writing c fresh rest } := by
      simp [PooledCall.holds, hpoint]
    rw [hholds]
    rcases getElem?_set_eq_some hy with ⟨rfl, rfl⟩ | ⟨-, hy⟩
    · rw [← h.once c x hx]
    · rw [← h.once d y hy]

/-- A call that lets go of its connection, which is closed. --/
theorem lets_go (h : w.Shared) (hi : w.calls[i]? = some call) (hpoint : call.point = .writing c fresh left)
    (hnew : ∀ d, PooledCall.holds d { call with point := point } = false)
    (hconn : ∀ d ∈ ({ call with point := point } : PooledCall).conn?, d ∈ call.conn?) :
    ((w.moved i call point).closing ([c], w.pool)).Shared := by
  have hholds : ∀ d, call.holds d = (c == d) := fun d => by simp [PooledCall.holds, hpoint]
  obtain ⟨x, hx, -, -, hone⟩ := h.opened_of_holds hi (c := c) (by simp [hholds])
  refine h.goes hi rfl rfl (by rw [addrs_closing]; exact prefix_rfl) (fun d hd => ?_) fun d y hy => ?_
  · rw [addrs_closing]
    exact h.held call (mem_of_getElem? hi) d (hconn d hd)
  · rw [getElem?_closing] at hy
    obtain ⟨z, hz, rfl⟩ := Option.map_eq_some_iff.mp hy
    rw [hnew, hholds]
    by_cases hd : c = d
    · subst hd
      obtain rfl := Option.some.inj (hx.symm.trans hz)
      simp [hone]
    · simp [beq_false_of_ne hd, Ne.symm hd, h.once d z hz]

theorem wrote (h : w.Shared) {now : Int} {out : List Nat × ConnPool} (hi : w.calls[i]? = some call)
    (hpoint : call.point = .writing c fresh []) (hput : Puts w.pool call.addr c now out) :
    ((w.moved i call (.sent c)).closing out).Shared := by
  have hconn : ∀ d ∈ ({ call with point := .sent c } : PooledCall).conn?, d ∈ call.conn? := by
    simp [PooledCall.conn?, hpoint]
  cases hput with
  | closes => exact h.lets_go hi hpoint (fun _ => rfl) hconn
  | @keeps p' hopen hlen hclosed hqueue =>
    have hheld := h.held call (mem_of_getElem? hi)
    refine ⟨fun a => ?_, fun hc => absurd (hclosed.symm.trans hc) (by decide), fun a pc hpc => ?_, ?_, fun d y hy => ?_⟩
    · show (p'.queue a).length ≤ _
      rw [hqueue]
      split
      · rw [length_append]
        exact hlen
      · exact h.room a
    · rw [addrs_closing]
      change pc ∈ p'.queue a at hpc
      rw [hqueue] at hpc
      split at hpc
      · next ha =>
        rcases mem_append_single.mp hpc with hpc | rfl
        · exact h.idle a pc (ha ▸ hpc)
        · exact ha ▸ hheld c (by simp [PooledCall.conn?, hpoint])
      · exact h.idle a pc hpc
    · rw [addrs_closing]
      exact h.held_moved prefix_rfl fun d hd => hheld d (hconn d hd)
    · rw [getElem?_closing] at hy
      obtain ⟨z, hz, rfl⟩ := Option.map_eq_some_iff.mp hy
      have hold := h.once d z hz
      have hcount := countP_set_add hi { call with point := .sent c } (PooledCall.holds d)
      have hholds : call.holds d = (c == d) := by simp [PooledCall.holds, hpoint]
      have hsent : PooledCall.holds d { call with point := .sent c } = false := rfl
      rw [hsent, hholds] at hcount
      simp only [hands, closing, moved, hqueue] at hold ⊢
      by_cases hd : c = d
      · subst hd
        have haddr : z.addr = call.addr :=
          Option.some.inj ((getElem?_addrs hz).symm.trans (hheld c (by simp [PooledCall.conn?, hpoint])))
        simp [haddr] at hcount hold ⊢
        omega
      · rw [beq_false_of_ne hd] at hcount
        split
        · next ha =>
          rw [ha] at hold
          simp [hd] at hcount ⊢
          omega
        · simp at hcount ⊢
          omega

theorem dialed (h : w.Shared) (hi : w.calls[i]? = some call) (hpoint : call.point = .dialing) :
    Shared { w.moved i call (.writing w.conns.length true (writePacket call.pkt)) with
      conns := w.conns ++ [{ addr := call.addr }] } := by
  have hholds : ∀ d, call.holds d = false := fun d => by simp [PooledCall.holds, hpoint]
  have hnew : ∀ d, PooledCall.holds d { call with point := .writing w.conns.length true (writePacket call.pkt) } =
      (w.conns.length == d) :=
    fun d => rfl
  refine h.goes hi rfl rfl (by simp [addrs]) (fun d hd => ?_) fun d y hy => ?_
  · obtain rfl := Option.some.inj hd
    simp [addrs]
  · rw [hholds, hnew]
    rcases getElem?_append_single hy with hy | ⟨rfl, rfl⟩
    · simp [h.once d y hy, beq_false_of_ne (Nat.ne_of_gt (lt_of_getElem? hy))]
    · -- Nothing has the number of the new connection yet.
      have hnone : w.addrs[w.conns.length]? = none := by simp [addrs]
      have hqueue : (w.pool.queue call.addr).countP (fun pc => pc.conn == w.conns.length) = 0 := by
        refine countP_eq_zero.mpr fun pc hpc heq => ?_
        have hidle := h.idle _ pc hpc
        rw [beq_iff_eq.mp heq, hnone] at hidle
        simp at hidle
      have hcalls : w.calls.countP (PooledCall.holds w.conns.length) = 0 := by
        refine countP_eq_zero.mpr fun b hb heq => ?_
        have hheld := h.held b hb _ (PooledCall.conn?_of_holds heq)
        simp [hnone] at hheld
      simp [hands, hqueue, hcalls]

theorem drops (h : w.Shared) {f : PooledConn → Bool} {out : List Nat × ConnPool} (hdrop : w.pool.Drops f out) :
    (w.closing out).Shared := by
  have hsub : ∀ a, ∀ pc ∈ out.2.queue a, pc ∈ w.pool.queue a := fun a pc hpc => by
    rw [hdrop.queue] at hpc
    exact (mem_filter.mp hpc).1
  refine ⟨fun a => ?_, fun hc a => ?_, fun a pc hpc => ?_, ?_, fun c y hy => ?_⟩
  · show (out.2.queue a).length ≤ _
    rw [hdrop.queue]
    exact Nat.le_trans (length_filter_le _ _) (h.room a)
  · show out.2.queue a = []
    rcases hdrop.closed with hsame | hempty
    · rw [hdrop.queue, h.stopped (hsame ▸ hc) a, filter_nil]
    · exact hempty a
  · rw [addrs_closing]
    exact h.idle a pc (hsub a pc hpc)
  · rw [addrs_closing]
    exact h.held
  · rw [getElem?_closing] at hy
    obtain ⟨z, hz, rfl⟩ := Option.map_eq_some_iff.mp hy
    have hold := h.once c z hz
    -- What is idle is kept or dead; a connection is idle under its own address only.
    have hsplit : (w.pool.queue z.addr).countP (fun pc => pc.conn == c) =
        ((w.pool.queue z.addr).filter f).countP (fun pc => pc.conn == c) + (w.pool.queue z.addr).countP
          (fun pc => pc.conn == c && !f pc) := by
      rw [countP_filter]
      generalize w.pool.queue z.addr = q
      induction q with
      | nil => rfl
      | cons pc q ih => cases hp : (pc.conn == c) <;> cases hf : f pc <;> simp [hp, hf, ih] <;> omega
    have hdead : c ∈ out.1 ↔ 0 < (w.pool.queue z.addr).countP (fun pc => pc.conn == c && !f pc) := by
      rw [hdrop.dead, countP_pos_iff]
      constructor
      · rintro ⟨a, pc, hpc, hf, rfl⟩
        obtain rfl := Option.some.inj ((getElem?_addrs hz).symm.trans (h.idle a pc hpc))
        exact ⟨pc, hpc, by simp [hf]⟩
      · rintro ⟨pc, hpc, hcf⟩
        simp only [Bool.and_eq_true, beq_iff_eq, Bool.not_eq_true'] at hcf
        exact ⟨_, pc, hpc, hcf.2, hcf.1⟩
    have hle : z.opened.toNat ≤ 1 := Bool.toNat_le z.opened
    simp only [hands, closing, hdrop.queue] at hold ⊢
    by_cases hc : c ∈ out.1
    · have hpos := hdead.mp hc
      rw [contains_iff_mem.mpr hc, Bool.not_true, Bool.and_false, Bool.toNat_false]
      omega
    · have hnone := mt hdead.mpr hc
      simp [hc]
      omega

theorem moves (h : w.Shared) (hmove : Moves w w') : w'.Shared := by
  cases hmove with
  | begins hget => exact h.begins hget
  | writes hi hpoint _ hx => exact h.writes hi hpoint hx
  | wrote hi hpoint hput => exact h.wrote hi hpoint hput
  | broke hi hpoint _ hnext =>
    rcases hnext with rfl | rfl <;> exact h.lets_go hi hpoint (fun _ => rfl) (by simp [PooledCall.conn?])
  | dialed hi hpoint => exact h.dialed hi hpoint
  | @missed i call hi hpoint =>
    refine h.goes hi rfl rfl prefix_rfl (by simp [PooledCall.conn?]) fun c x hx => ?_
    simp [PooledCall.holds, hpoint, h.once c x hx]
  | drops hdrop => exact h.drops hdrop

theorem run {as : List PoolAct} (hrun : exec step {} as = some w) : w.Shared :=
  exec_keeps (fun _ _ _ h hstep => h.moves (step_moves hstep)) new hrun

end Shared

/-! ### The pool in every run -/

/-- In every run at most four connections are idle for an address, and none once the pool is closed. An open
    connection is idle once or in the hands of one call, for its own address, and a closed one is neither:
    none is shared or lost. --/
theorem pool_owns {as : List PoolAct} (hrun : exec step {} as = some w) :
    (∀ a, (w.pool.queue a).length ≤ maxIdlePerAddr ∧ (w.pool.closed = true → w.pool.queue a = [])) ∧
    (∀ a, ∀ pc ∈ w.pool.queue a, ∃ x, w.conns[pc.conn]? = some x ∧ x.addr = a ∧ x.opened = true) ∧
    (∀ call ∈ w.calls, ∀ c, call.holds c = true → ∃ x, w.conns[c]? = some x ∧ x.addr = call.addr ∧ x.opened = true) ∧
    ∀ c x, w.conns[c]? = some x →
      (w.pool.queue x.addr).countP (fun pc => pc.conn == c) + w.calls.countP (PooledCall.holds c) = x.opened.toNat := by
  have h := Shared.run hrun
  refine ⟨fun a => ⟨h.room a, fun hc => h.stopped hc a⟩, fun a pc hpc => ?_, fun call hcall c hc => ?_, h.once⟩
  · obtain ⟨x, hx, rfl⟩ := exists_conn (h.idle a pc hpc)
    have hpos : 0 < (w.pool.queue x.addr).countP (fun b => b.conn == pc.conn) :=
      countP_pos_iff.mpr ⟨pc, hpc, beq_self_eq_true _⟩
    exact ⟨x, hx, rfl, h.opened_of_hands hx (Nat.add_pos_left hpos _)⟩
  · obtain ⟨i, hi⟩ := mem_iff_getElem?.mp hcall
    obtain ⟨x, hx, haddr, hopen, -⟩ := h.opened_of_holds hi hc
    exact ⟨x, hx, haddr, hopen⟩

/-- The second call reuses the connection of the first, breaks off after five bytes, and writes its
    packet on a fresh one. --/
def retried : List PoolAct :=
  let n := (writePacket oldPacket).length
  [.send "relay:64513" oldPacket, .dial 0 true, .write 0 n, .wrote 0 0,
    .send "relay:64513" oldPacket, .write 1 5, .broke 1, .dial 1 true, .write 1 n, .wrote 1 1]

theorem pool_owns_retried : ∃ w, exec step {} retried = some w ∧ ∀ c x, w.conns[c]? = some x →
    (w.pool.queue x.addr).countP (fun pc => pc.conn == c) + w.calls.countP (PooledCall.holds c) = x.opened.toNat := by
  obtain ⟨w, hw⟩ : ∃ w, exec step {} retried = some w := Option.isSome_iff_exists.mp (by decide +kernel)
  exact ⟨w, hw, (pool_owns hw).2.2.2⟩

end Pooling
end SyncSwarm.Transfer
