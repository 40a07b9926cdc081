import Mathlib.Algebra.Order.BigOperators.Group.List
import Mathlib.Algebra.Ring.Int.Defs

/-! The duty cycle of an interface (`internal/iface/duty.go`): how much of a sliding window it may spend transmitting.
    What `airtime` and `budget` compute with floating-point numbers is left open. A `time.Duration` has 64 bits, and
    sums of durations wrap around. -/

namespace SyncSwarm.Iface

/-- The window, and the airtime of a frame of `n` bytes and of a window, whatever they are. --/
structure DutyConfig where
  window : Int
  airtime : Nat → Int64
  budget : Int64
  window_pos : 0 < window
  airtime_nonneg : ∀ n, 0 ≤ (airtime n).toInt
  budget_nonneg : 0 ≤ budget.toInt

structure DutyEvent where
  time : Int
  air : Int64

structure DutyLimiter where
  events : List DutyEvent := []
  spent : Int64 := 0

namespace DutyLimiter

/-- The loop of `pruneLocked` over the events that are not after `cut`. --/
def dropAged (cut : Int) (spent : Int64) : List DutyEvent → Int64 × List DutyEvent
  | [] => (spent, [])
  | e :: es => if cut < e.time then (spent, e :: es) else dropAged cut (spent - e.air) es

def pruneLocked (c : DutyConfig) (d : DutyLimiter) (now : Int) : DutyLimiter :=
  let (spent, events) := dropAged (now - c.window) d.spent d.events
  { events, spent := if spent < 0 then 0 else spent }

def allow (c : DutyConfig) (d : DutyLimiter) (now : Int) (n : Nat) : Bool × DutyLimiter :=
  let d := d.pruneLocked c now
  let air := c.airtime n
  if c.budget < d.spent + air then (false, d)
  else (true, { events := d.events ++ [⟨now, air⟩], spent := d.spent + air })

end DutyLimiter

/-- The limiter behind a history of calls, and the frames that it has allowed, with the times of the calls. --/
structure DutyHistory where
  limiter : DutyLimiter := {}
  allowed : List DutyEvent := []

def DutyHistory.call (c : DutyConfig) (h : DutyHistory) (x : Int × Nat) : DutyHistory where
  limiter := (h.limiter.allow c x.1 x.2).2
  allowed := if (h.limiter.allow c x.1 x.2).1 then h.allowed ++ [⟨x.1, c.airtime x.2⟩] else h.allowed

def DutyHistory.run (c : DutyConfig) (calls : List (Int × Nat)) : DutyHistory := calls.foldl (call c) {}

/-- The airtime of the frames in a list, as a number that does not wrap around. --/
def airOf (es : List DutyEvent) : Int := (es.map (·.air.toInt)).sum

/-- The airtime of the frames in the window that ends at `t`. --/
def airWithin (c : DutyConfig) (es : List DutyEvent) (t : Int) : Int :=
  airOf (es.filter fun e => t - c.window < e.time ∧ e.time ≤ t)

end SyncSwarm.Iface
