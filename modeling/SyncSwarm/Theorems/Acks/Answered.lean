import SyncSwarm.Theorems.Acks.Reports

/-! A sender that is told of a delivery has accepted an acknowledgement for it. -/

namespace SyncSwarm.Transfer
open Lib Protocol List

namespace Confirmations
variable {onDelivered : Bool} {iter : GoMap.Iteration TransferID PendingAck} {w u : Confirmations}
  {a : Action} {c : Nat}
  {x : SendCall}

/-- Every confirmation has an acknowledgement behind it. --/
structure Answered (w : Confirmations) : Prop where
  closed : ∀ k ∈ w.closed, ∃ r ∈ w.resolutions, r.ack.ch = k
  confirmed : ∀ c x, w.calls[c]? = some x → x.phase.confirmed = true → c ∈ w.closed

theorem answered_new : new.Answered := by
  refine ⟨nofun, fun c x hx => ?_⟩
  simp [new] at hx

theorem confirmed_afterTimeout (n : Nat) : (afterTimeout n).confirmed = false := by
  rw [afterTimeout]
  split <;> rfl

theorem confirmed_deferred (w : Confirmations) (x : SendCall) (result : SendResult) :
    (w.deferred x result).confirmed = (SendPhase.leaving result).confirmed := by
  rw [deferred]
  split <;> cases result <;> rfl

theorem Steps.closed (hs : Steps onDelivered iter w a u) : w.closed ⊆ u.closed := by
  cases hs with
  | reported =>
    rw [report]
    dsimp only
    split
    · split <;> exact List.Subset.refl _
    · exact subset_cons_self _ _
  | _ => exact List.Subset.refl _

theorem Steps.answered (hs : Steps onDelivered iter w a u) (h : w.Answered) : u.Answered where
  closed k hk := by
    have hold : k ∈ w.closed → ∃ r ∈ u.resolutions, r.ack.ch = k := by
      intro hk
      obtain ⟨r, hr, hch⟩ := h.closed k hk
      obtain ⟨r', hr', -, hack⟩ := hs.resolution_stays hr
      exact ⟨r', hr', hack ▸ hch⟩
    cases hs with
    | @reported r x hx hrep =>
      rcases mem_report_closed hk with hk | rfl
      · exact hold hk
      · have hstep : Steps onDelivered iter w (.report r) _ := .reported hx hrep
        obtain ⟨r', hr', -, hack⟩ := hstep.resolution_stays (mem_of_getElem? hx)
        exact ⟨r', hr', congrArg PendingAck.ch hack⟩
    | _ => exact hold hk
  confirmed c x hx hc := by
    -- A call is in such a phase before the step, or takes its closed channel in it.
    have hset : ∀ {c' : Nat} {y : SendCall} {phase : SendPhase}, w.calls[c']? = some y →
        (w.setPhase c' y phase).calls[c]? = some x → (phase.confirmed = true → c' ∈ w.closed) → c ∈ w.closed := by
      intro c' y phase hy hx hphase
      rcases calls_setPhase hy hx with ⟨rfl, -, rfl⟩ | ⟨-, hx⟩
      · exact hphase hc
      · exact h.confirmed c x hx hc
    have hstill : ∀ {c' : Nat} {y : SendCall} {phase : SendPhase}, w.calls[c']? = some y →
        phase.confirmed = y.phase.confirmed → phase.confirmed = true → c' ∈ w.closed :=
      fun hy heq hp => h.confirmed _ _ hy (heq ▸ hp)
    refine hs.closed ?_
    cases hs with
    | registered =>
      rw [getElem?_append] at hx
      split at hx
      · exact h.confirmed c x hx hc
      · obtain rfl := mem_singleton.mp (mem_of_getElem? hx)
        cases hc
    | confirmed hy _ hclosed => exact hset hy hx fun _ => hclosed
    | timedOut hy hp => exact hset hy hx (hstill hy (by rw [hp, confirmed_afterTimeout]; rfl))
    | canceled hy hp | retained hy hp => exact hset hy hx (hstill hy (by rw [hp]; rfl))
    | checked hy hp => exact hset hy hx (hstill hy (by rw [hp, confirmed_deferred]))
    | @unregistered c' y result hy hp => exact hset hy hx (hstill hy (by rw [hp]; cases result <;> rfl))
    | reported => exact h.confirmed c x (report_calls ▸ hx) hc
    | _ => exact h.confirmed c x hx hc

theorem Answered.resolution (h : w.Answered) (howned : w.Owned) (hx : w.calls[c]? = some x)
    (hc : x.phase.confirmed = true) :
    ∃ r ∈ w.resolutions, r.id = x.id := by
  obtain ⟨r, hr, hch⟩ := h.closed c (h.confirmed c x hx hc)
  have hid : w.idAt c = some r.id := hch ▸ howned.resolution r hr
  rw [idAt, hx] at hid
  exact ⟨r, hr, (Option.some.inj hid).symm⟩

end Confirmations
end SyncSwarm.Transfer
