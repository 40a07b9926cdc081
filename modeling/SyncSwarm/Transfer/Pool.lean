import SyncSwarm.Lib.Map
import SyncSwarm.Protocol.Signed

/-! The pool of idle outbound connections and the calls of `sendPooled` that share it, interleaved with the reaper and
    `Stop` at the pool's lock. -/

namespace SyncSwarm.Transfer
open Lib Protocol

def maxIdlePerAddr : Nat := 4

def connIdleTTL : Int := 30000000000

structure PooledConn where
  conn : Nat
  lastUsed : Int

structure ConnPool where
  idle : GoMap String (List PooledConn) := ∅
  closed : Bool := false

namespace ConnPool

/-- `p.idle[addr]`. --/
def queue (p : ConnPool) (addr : String) : List PooledConn := (p.idle.get? addr).getD []

def get (p : ConnPool) (addr : String) : Option Nat × ConnPool :=
  let q := p.queue addr
  match q.getLast? with
  | none => (none, p)
  | some c =>
    (some c.conn, { p with idle := if q.length = 1 then p.idle.delete addr else p.idle.set addr q.dropLast })

/-- Returns the connections that the call closes and the pool. --/
def put (p : ConnPool) (addr : String) (conn : Nat) (now : Int) : List Nat × ConnPool :=
  if p.closed || maxIdlePerAddr ≤ (p.queue addr).length then ([conn], p)
  else ([], { p with idle := p.idle.set addr (p.queue addr ++ [⟨conn, now⟩]) })

/-- One address of the round of `reap`: the connections idle since before `cutoff` are dead. --/
def reapAddr (cutoff : Int) (out : List Nat × ConnPool) (e : String × List PooledConn) : List Nat × ConnPool :=
  let kept := e.2.filter fun c => !decide (c.lastUsed < cutoff)
  (out.1 ++ (e.2.filter fun c => c.lastUsed < cutoff).map (·.conn),
    { out.2 with idle := if kept.isEmpty then out.2.idle.delete e.1 else out.2.idle.set e.1 kept })

def reap (iter : GoMap.Iteration String (List PooledConn)) (p : ConnPool) (now : Int) : List Nat × ConnPool :=
  (iter.order p.idle).foldl (reapAddr (now - connIdleTTL)) ([], p)

def closeAll (iter : GoMap.Iteration String (List PooledConn)) (p : ConnPool) : List Nat × ConnPool :=
  ((iter.order p.idle).flatMap fun e => e.2.map (·.conn), { idle := ∅, closed := true })

end ConnPool

/-! ### The calls that share the pool -/

/-- A dialed connection: where to, what was written on it, and whether this end has closed it. --/
structure Dialed where
  addr : String
  written : Bytes := []
  opened : Bool := true

/-- Where a call of `sendPooled` stands: writing on a connection, from the pool or fresh, with bytes left to write;
    dialing; or back, with a nil error after a write on a connection, or with an error. --/
inductive Point
  | writing (conn : Nat) (fresh : Bool) (left : Bytes)
  | dialing
  | sent (conn : Nat)
  | failed

structure PooledCall where
  addr : String
  pkt : SignedPacket
  point : Point

structure Pooling where
  pool : ConnPool := {}
  conns : List Dialed := []
  calls : List PooledCall := []

inductive PoolAct
  | send (addr : String) (pkt : SignedPacket)
  | write (i n : Nat)
  | wrote (i : Nat) (now : Int)
  | broke (i : Nat)
  | dial (i : Nat) (up : Bool)
  | reap (iter : GoMap.Iteration String (List PooledConn)) (now : Int)
  | stop (iter : GoMap.Iteration String (List PooledConn))

namespace Pooling

def moved (w : Pooling) (i : Nat) (call : PooledCall) (point : Point) : Pooling :=
  { w with calls := w.calls.set i { call with point := point } }

def closing (w : Pooling) (out : List Nat × ConnPool) : Pooling :=
  { w with pool := out.2, conns := w.conns.mapIdx fun c x => { x with opened := x.opened && !out.1.contains c } }

def step (w : Pooling) : PoolAct → Option Pooling
  | .send addr pkt =>
    let (reused, pool) := w.pool.get addr
    some { w with
      pool := pool, calls :=
      w.calls ++ [⟨addr, pkt, reused.elim .dialing fun c => .writing c false (writePacket pkt)⟩] }
  | .write i n => do
    let call ← w.calls[i]?
    match call.point with
    | .writing c fresh left =>
      let x ← w.conns[c]?
      if x.opened ∧ 0 < n ∧ n ≤ left.length then
        some { w.moved i call (.writing c fresh (left.drop n)) with
          conns := w.conns.set c { x with written := x.written ++ left.take n } }
      else none
    | _ => none
  | .wrote i now => do
    let call ← w.calls[i]?
    match call.point with
    | .writing c _ [] => some ((w.moved i call (.sent c)).closing (w.pool.put call.addr c now))
    | _ => none
  | .broke i => do
    let call ← w.calls[i]?
    match call.point with
    | .writing c fresh (_ :: _) => some ((w.moved i call (if fresh then .failed else .dialing)).closing ([c], w.pool))
    | _ => none
  | .dial i up => do
    let call ← w.calls[i]?
    match call.point with
    | .dialing =>
      if up then
        some { w.moved i call (.writing w.conns.length true (writePacket call.pkt)) with
          conns := w.conns ++ [{ addr := call.addr }] }
      else some (w.moved i call .failed)
    | _ => none
  | .reap iter now => some (w.closing (w.pool.reap iter now))
  | .stop iter => some (w.closing (w.pool.closeAll iter))

end Pooling
end SyncSwarm.Transfer
