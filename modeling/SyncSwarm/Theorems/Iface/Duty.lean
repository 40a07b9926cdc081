import Mathlib.Data.List.Induction
import SyncSwarm.Iface.Duty

/-! The duty cycle holds in every window: one reaches as far back as that of the last allowed frame in it, at most. -/

namespace SyncSwarm.Iface
open List

variable {c : DutyConfig} {calls : List (Int × Nat)}

/-! ### Airtime -/

theorem toInt_add_of_lt {a b : Int64} (ha : 0 ≤ a.toInt) (hb : 0 ≤ b.toInt) (h : a.toInt + b.toInt < 2 ^ 63) :
    (a + b).toInt = a.toInt + b.toInt := by
  rw [Int64.toInt_add, Int.bmod_eq_of_le (by omega) (by omega)]

theorem airOf_append (es more : List DutyEvent) : airOf (es ++ more) = airOf es + airOf more := by
  simp [airOf]

theorem airOf_nonneg {es : List DutyEvent} (h : ∀ e ∈ es, 0 ≤ e.air.toInt) : 0 ≤ airOf es := by
  refine sum_nonneg fun air hair => ?_
  obtain ⟨e, he, rfl⟩ := mem_map.mp hair
  exact h e he

/-- As long as the events come in order, what is dropped are those up to `cut`, and what is left of the sum is the
    airtime of the others. --/
theorem dropAged_eq {es : List DutyEvent} {spent : Int64} (hsorted : es.Pairwise fun e e' => e.time ≤ e'.time)
    (hnonneg : ∀ e ∈ es, 0 ≤ e.air.toInt) (hspent : spent.toInt = airOf es) (cut : Int) :
    (DutyLimiter.dropAged cut spent es).2 = (es.filter fun e => cut < e.time) ∧
      (DutyLimiter.dropAged cut spent es).1.toInt = airOf (es.filter fun e => cut < e.time) := by
  induction es generalizing spent with
  | nil => exact ⟨rfl, hspent⟩
  | cons e es ih =>
    obtain ⟨hle, hrest⟩ := pairwise_cons.mp hsorted
    rw [DutyLimiter.dropAged]
    split
    next hcut =>
      have hall : (e :: es).filter (fun e => cut < e.time) = e :: es := by
        refine filter_eq_self.mpr fun x hx => decide_eq_true ?_
        rcases mem_cons.mp hx with rfl | hx
        · exact hcut
        · exact Int.lt_of_lt_of_le hcut (hle x hx)
      rw [hall]
      exact ⟨rfl, hspent⟩
    next hcut =>
      have hothers : ∀ x ∈ es, 0 ≤ x.air.toInt := fun x hx => hnonneg x (mem_cons_of_mem e hx)
      have hsum : spent.toInt = e.air.toInt + airOf es := by simp [hspent, airOf]
      have hnext := hnonneg e mem_cons_self
      have hleft := airOf_nonneg hothers
      rw [filter_cons_of_neg (by simpa using hcut)]
      refine ih hrest hothers ?_
      rw [Int64.toInt_sub_of_le _ _ (Int64.le_iff_toInt_le.mpr hnext) (Int64.le_iff_toInt_le.mpr (by omega))]
      omega

theorem airWithin_append (es : List DutyEvent) (e : DutyEvent) (t : Int) :
    airWithin c (es ++ [e]) t = airWithin c es t + if t - c.window < e.time ∧ e.time ≤ t then e.air.toInt else 0 := by
  rw [airWithin, filter_append, airOf_append]
  by_cases hin : t - c.window < e.time ∧ e.time ≤ t
  · rw [if_pos hin, filter_cons_of_pos (by simpa using hin)]
    simp [airWithin, airOf]
  · rw [if_neg hin, filter_cons_of_neg (by simpa using hin)]
    rfl

/-! ### The limiter -/

/-- What holds behind calls up to the time `last`: the limiter keeps the allowed frames of the window that ends then,
    it has spent their airtime, and no window is over the budget. --/
structure DutyHistory.Kept (c : DutyConfig) (h : DutyHistory) (last : Int) : Prop where
  sorted : h.allowed.Pairwise fun e e' => e.time ≤ e'.time
  past : ∀ e ∈ h.allowed, e.time ≤ last
  nonneg : ∀ e ∈ h.allowed, 0 ≤ e.air.toInt
  events : h.limiter.events = h.allowed.filter fun e => last - c.window < e.time
  spent : h.limiter.spent.toInt = airOf h.limiter.events
  bound : ∀ t, airWithin c h.allowed t ≤ c.budget.toInt

namespace DutyHistory.Kept
variable {h : DutyHistory} {last now : Int}

theorem airAfter_eq (hk : h.Kept c last) (hnow : last ≤ now) :
    airOf (h.allowed.filter fun e => now - c.window < e.time) = airWithin c h.allowed now := by
  rw [airWithin]
  congr 1
  refine filter_congr fun e he => ?_
  have hpast := hk.past e he
  simp only [decide_eq_decide]
  omega

theorem airWithin_nonneg (hk : h.Kept c last) (t : Int) : 0 ≤ airWithin c h.allowed t :=
  airOf_nonneg fun e he => hk.nonneg e (mem_of_mem_filter he)

theorem dropAged (hk : h.Kept c last) (hnow : last ≤ now) :
    (DutyLimiter.dropAged (now - c.window) h.limiter.spent h.limiter.events).2 =
        (h.allowed.filter fun e => now - c.window < e.time) ∧
      (DutyLimiter.dropAged (now - c.window) h.limiter.spent h.limiter.events).1.toInt = airWithin c h.allowed now := by
  have hevents : h.limiter.events.filter (fun e => now - c.window < e.time) =
      h.allowed.filter fun e => now - c.window < e.time := by
    rw [hk.events, filter_filter]
    refine filter_congr fun e _ => ?_
    simp only [← Bool.decide_and, decide_eq_decide]
    omega
  have hold : ∀ e ∈ h.limiter.events, 0 ≤ e.air.toInt := by
    rw [hk.events]
    exact fun e he => hk.nonneg e (mem_of_mem_filter he)
  rw [← hk.airAfter_eq hnow, ← hevents]
  exact dropAged_eq (hk.events ▸ hk.sorted.filter _) hold hk.spent _

theorem airWithin_le (hk : h.Kept c last) {t : Int} (hnow : last ≤ now) (ht : now ≤ t) :
    airWithin c h.allowed t ≤ airWithin c h.allowed now := by
  have hsub : h.allowed.filter (fun e => t - c.window < e.time ∧ e.time ≤ t) <+
      h.allowed.filter fun e => now - c.window < e.time := by
    refine monotone_filter_right _ fun e he => ?_
    simp only [decide_eq_true_eq] at he ⊢
    omega
  rw [← hk.airAfter_eq hnow]
  refine (hsub.map _).sum_le_sum fun air hair => ?_
  obtain ⟨e, he, rfl⟩ := mem_map.mp hair
  exact hk.nonneg e (mem_of_mem_filter he)

/-- The clamp at zero does not act. --/
theorem pruneLocked (hk : h.Kept c last) (hnow : last ≤ now) :
    (h.limiter.pruneLocked c now).events = (h.allowed.filter fun e => now - c.window < e.time) ∧
      (h.limiter.pruneLocked c now).spent.toInt = airWithin c h.allowed now := by
  obtain ⟨hevents, hspent⟩ := hk.dropAged hnow
  refine ⟨hevents, ?_⟩
  have hpos : ¬(DutyLimiter.dropAged (now - c.window) h.limiter.spent h.limiter.events).1 < 0 := by
    rw [Int64.lt_iff_toInt_lt, hspent]
    exact Int.not_lt.mpr (hk.airWithin_nonneg now)
  rw [DutyLimiter.pruneLocked]
  dsimp only
  rw [if_neg hpos, hspent]

theorem allow (hk : h.Kept c last) (hnow : last ≤ now) {n : Nat}
    (hfits : c.budget.toInt + (c.airtime n).toInt < 2 ^ 63) :
    ((h.limiter.pruneLocked c now).spent + c.airtime n).toInt = airWithin c h.allowed now + (c.airtime n).toInt ∧
      h.limiter.allow c now n = if c.budget.toInt < airWithin c h.allowed now + (c.airtime n).toInt then
          (false, h.limiter.pruneLocked c now)
        else (true, ⟨(h.limiter.pruneLocked c now).events ++ [⟨now, c.airtime n⟩],
          (h.limiter.pruneLocked c now).spent + c.airtime n⟩) := by
  have hspent := (hk.pruneLocked hnow).2
  have hbound := hk.bound now
  have hsum : ((h.limiter.pruneLocked c now).spent + c.airtime n).toInt =
      airWithin c h.allowed now + (c.airtime n).toInt := by
    rw [toInt_add_of_lt (hspent ▸ hk.airWithin_nonneg now) (c.airtime_nonneg n) (by omega), hspent]
  refine ⟨hsum, ?_⟩
  rw [DutyLimiter.allow, ← hsum]
  simp only [Int64.lt_iff_toInt_lt]

theorem call (hk : h.Kept c last) (hnow : last ≤ now) {n : Nat}
    (hfits : c.budget.toInt + (c.airtime n).toInt < 2 ^ 63) :
    (h.call c (now, n)).Kept c now := by
  obtain ⟨hevents, hspent⟩ := hk.pruneLocked hnow
  obtain ⟨hsum, hallow⟩ := hk.allow hnow hfits
  have hleft : (h.limiter.pruneLocked c now).spent.toInt = airOf (h.limiter.pruneLocked c now).events := by
    rw [hspent, hevents, hk.airAfter_eq hnow]
  rw [DutyHistory.call, hallow]
  split
  · exact ⟨hk.sorted, fun e he => Int.le_trans (hk.past e he) hnow, hk.nonneg, hevents, hleft, hk.bound⟩
  next hroom =>
    have hnew : now - c.window < now := by have := c.window_pos; omega
    refine ⟨pairwise_append.mpr ⟨hk.sorted, pairwise_singleton _ _, ?_⟩, ?_, ?_, ?_, ?_, fun t => ?_⟩
    · intro e he x hx
      rw [mem_singleton.mp hx]
      exact Int.le_trans (hk.past e he) hnow
    · intro e he
      rcases mem_append.mp he with he | he
      · exact Int.le_trans (hk.past e he) hnow
      · rw [mem_singleton.mp he]
    · intro e he
      rcases mem_append.mp he with he | he
      · exact hk.nonneg e he
      · rw [mem_singleton.mp he]
        exact c.airtime_nonneg n
    · rw [if_pos rfl, filter_append, filter_cons_of_pos (by simpa using hnew), ← hevents]
      rfl
    · rw [airOf_append, ← hleft, hsum, hspent]
      simp [airOf]
    · rw [if_pos rfl, airWithin_append]
      split
      · next hin =>
        have := hk.airWithin_le hnow hin.2
        dsimp only
        omega
      · rw [add_zero]
        exact hk.bound t

end DutyHistory.Kept

/-- Frames whose airtime, together with the budget, is a duration. --/
def Durable (c : DutyConfig) (calls : List (Int × Nat)) : Prop :=
  ∀ x ∈ calls, c.budget.toInt + (c.airtime x.2).toInt < 2 ^ 63

theorem kept_run (hsorted : calls.Pairwise fun x y => x.1 ≤ y.1) (hfits : Durable c calls) (now : Int)
    (hnow : ∀ x ∈ calls, x.1 ≤ now) : ∃ last ≤ now, (DutyHistory.run c calls).Kept c last := by
  induction calls using List.reverseRecOn generalizing now with
  | nil => exact ⟨now, Int.le_refl _, .nil, nofun, nofun, rfl, rfl, fun _ => c.budget_nonneg⟩
  | append_singleton calls x ih =>
    obtain ⟨hcalls, -, hle⟩ := pairwise_append.mp hsorted
    have hx : x ∈ calls ++ [x] := mem_append_right _ (mem_singleton_self x)
    obtain ⟨last, hlast, hk⟩ :=
      ih hcalls (fun y hy => hfits y (mem_append_left _ hy)) x.1 fun y hy => hle y hy x (mem_singleton_self x)
    rw [DutyHistory.run, foldl_append]
    exact ⟨x.1, hnow x hx, hk.call hlast (hfits x hx)⟩

/-- In every window the frames that were allowed stay within the budget; what the limiter has spent is the sum of the
    events it keeps, which is never clamped; and a frame is refused only when it would exceed the budget of the window
    that ends with it. That is as long as an airtime and the budget together are a duration. --/
theorem duty_cycle_kept (c : DutyConfig) {calls : List (Int × Nat)} (hsorted : calls.Pairwise fun x y => x.1 ≤ y.1)
    (hfits : Durable c calls) :
    (∀ t, airWithin c (DutyHistory.run c calls).allowed t ≤ c.budget.toInt) ∧
    (DutyHistory.run c calls).limiter.spent.toInt = airOf (DutyHistory.run c calls).limiter.events ∧
    ∀ now n, (∀ x ∈ calls, x.1 ≤ now) → c.budget.toInt + (c.airtime n).toInt < 2 ^ 63 →
      0 ≤ (DutyLimiter.dropAged (now - c.window) (DutyHistory.run c calls).limiter.spent
        (DutyHistory.run c calls).limiter.events).1.toInt ∧
      (((DutyHistory.run c calls).limiter.allow c now n).1 = false →
        c.budget.toInt < airWithin c (DutyHistory.run c calls).allowed now + (c.airtime n).toInt) := by
  have hlast : ∃ now, ∀ x ∈ calls, x.1 ≤ now := by
    rcases eq_nil_or_concat' calls with rfl | ⟨init, x, rfl⟩
    · exact ⟨0, nofun⟩
    · refine ⟨x.1, fun y hy => ?_⟩
      rcases mem_append.mp hy with hy | hy
      · exact (pairwise_append.mp hsorted).2.2 y hy x (mem_singleton_self x)
      · rw [mem_singleton.mp hy]
  obtain ⟨now, hnow⟩ := hlast
  obtain ⟨last, -, hkept⟩ := kept_run hsorted hfits now hnow
  refine ⟨hkept.bound, hkept.spent, fun now n hnow hn => ?_⟩
  obtain ⟨last, hle, hk⟩ := kept_run hsorted hfits now hnow
  refine ⟨?_, fun hrefused => ?_⟩
  · rw [(hk.dropAged hle).2]
    exact hk.airWithin_nonneg now
  · rw [(hk.allow hle hn).2] at hrefused
    split at hrefused
    · assumption
    · cases hrefused

/-- Ten milliseconds in a window of a hundred, a byte a millisecond: of three frames of five bytes
    the third is refused. --/
def tenth : DutyConfig where
  window := 100
  airtime n := if n < 1000 then Int64.ofNat n else Int64.maxValue
  budget := 10
  window_pos := by decide
  airtime_nonneg n := by
    split
    · next h => rw [Int64.toInt_ofNat_of_lt (by omega)]; omega
    · decide
  budget_nonneg := by decide

theorem duty_cycle_kept_tenth :
    airWithin tenth (DutyHistory.run tenth [(0, 5), (50, 5), (90, 5), (100, 5)]).allowed 100 = 10 ∧
    airWithin tenth (DutyHistory.run tenth [(0, 5), (50, 5), (90, 5), (100, 5)]).allowed 100 ≤ tenth.budget.toInt :=
  ⟨by decide, (duty_cycle_kept tenth (by decide) (by unfold Durable; decide)).1 100⟩

/-- A frame whose airtime is the longest duration wraps the sum around to a negative one, and is allowed. --/
theorem duty_cycle_wraps : (DutyHistory.run tenth [(0, 1), (0, 1000)]).allowed.length = 2 ∧
    tenth.budget.toInt < airWithin tenth (DutyHistory.run tenth [(0, 1), (0, 1000)]).allowed 0 := by
  decide

end SyncSwarm.Iface
