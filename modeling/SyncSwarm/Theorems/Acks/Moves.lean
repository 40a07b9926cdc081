import SyncSwarm.Transfer.Acks

/-! What a step of the confirmations can do, and what it does to the table of registrations. -/

namespace SyncSwarm.Transfer
open Lib Protocol List Option GoMap

structure PendingAck.Renews (pa' pa : PendingAck) : Prop where
  ch : pa'.ch = pa.ch
  destKey : pa'.destKey = pa.destKey
  token : pa'.token = pa.token

theorem PendingAck.Renews.refl (pa : PendingAck) : pa.Renews pa := ⟨rfl, rfl, rfl⟩

namespace PendingAcks
variable {iter : GoMap.Iteration TransferID PendingAck} {m : PendingAcks} {id i : TransferID} {pa : PendingAck}

theorem oldestLate_spec {l : List (TransferID × PendingAck)} {e : TransferID × PendingAck} (h : oldestLate l = some e) :
    e ∈ l ∧ e.2.late = true := mem_filter.mp (firstMin_mem h)

theorem get?_dropLate (iter : GoMap.Iteration TransferID PendingAck) (rounds : Nat) (m : PendingAcks) (i : TransferID) :
    (dropLate iter rounds m).get? i = m.get? i ∨ (dropLate iter rounds m).get? i = none ∧ (m.get? i).any (·.late) := by
  induction rounds generalizing m with
  | zero => exact .inl rfl
  | succ rounds ih =>
    rw [dropLate]
    split
    · split
      next old hold =>
        obtain ⟨hmem, hlate⟩ := oldestLate_spec hold
        have hget : m.get? old.1 = some old.2 := mem_entries.mp ((iter.perm m).mem_iff.mp hmem)
        by_cases hi : i = old.1
        · refine .inr ⟨?_, by rw [hi, hget]; exact hlate⟩
          rcases ih (GoMap.delete m old.1) with h | ⟨h, -⟩
          · rw [h, hi, get?_delete_self]
          · exact h
        · rw [← get?_delete_ne m hi]
          exact ih (GoMap.delete m old.1)
      · exact .inl rfl
    · exact .inl rfl

theorem retain_eq (iter : GoMap.Iteration TransferID PendingAck) (dest : String) (marked now : Nat)
    (h : m.get? id = some pa) :
    ∃ m' : PendingAcks, m.retainForLateAck iter id dest marked now = dropLate iter m'.len m' ∧ ∀ i, m'.get? i =
      ((GoMap.set m id { pa with dest, expires := marked + lateAckTTL, late := true }).get? i).filter
        fun v => !(v.late && v.expires < now) := by
  rw [retainForLateAck, h]
  exact ⟨_, rfl, get?_filter _ _⟩

section
variable {dest : String} {marked now : Nat}

theorem get?_retain_other (hi : i ≠ id) : (m.retainForLateAck iter id dest marked now).get? i = m.get? i ∨
    (m.retainForLateAck iter id dest marked now).get? i = none ∧ (m.get? i).any (·.late) := by
  cases hid : m.get? id with
  | none => exact .inl (by rw [retainForLateAck, hid])
  | some pa =>
    obtain ⟨m', hret, hget⟩ := retain_eq iter dest marked now hid
    have hi' := hget i
    rw [get?_set_ne _ _ hi] at hi'
    rw [hret]
    cases hv : m.get? i with
    | none =>
      rw [hv] at hi'
      exact (get?_dropLate iter m'.len m' i).imp (·.trans hi') fun h => by simp [hi'] at h
    | some v =>
      rw [hv] at hi'
      by_cases hexpired : v.late && v.expires < now
      · refine .inr ⟨?_, (Bool.and_eq_true_iff.mp hexpired).1⟩
        have hnone : m'.get? i = none := by rw [hi', Option.filter, hexpired]; rfl
        exact (get?_dropLate iter m'.len m' i).elim (·.trans hnone) And.left
      · have hsome : m'.get? i = some v := by rw [hi', Option.filter, Bool.eq_false_iff.mpr hexpired]; rfl
        exact (get?_dropLate iter m'.len m' i).imp (·.trans hsome) fun h => ⟨h.1, by simpa [hsome] using h.2⟩

theorem get?_retain_self (h : m.get? id = some pa) :
    (∃ pa', (m.retainForLateAck iter id dest marked now).get? id = some pa' ∧ pa'.Renews pa ∧ pa'.late = true) ∨
      (m.retainForLateAck iter id dest marked now).get? id = none := by
  obtain ⟨m', hret, hget⟩ := retain_eq iter dest marked now h
  have hself := hget id
  rw [get?_set_self, Option.filter] at hself
  rw [hret]
  rcases get?_dropLate iter m'.len m' id with hdrop | ⟨hdrop, -⟩
  · rw [hdrop, hself]
    split
    · exact .inl ⟨_, rfl, ⟨rfl, rfl, rfl⟩, rfl⟩
    · exact .inr rfl
  · exact .inr hdrop

end

theorem resolve_eq_some {proof : AckProof} {m' : PendingAcks} (h : m.resolve id proof = some (pa, m')) :
    m.get? id = some pa ∧ pa.accepts proof = true ∧ m' = GoMap.delete m id := by
  obtain ⟨pa', hget, h⟩ := bind_eq_some_iff.mp h
  split at h
  next hacc =>
    cases h
    exact ⟨hget, hacc, rfl⟩
  · cases h

end PendingAcks

namespace Confirmations
variable {onDelivered : Bool} {iter : GoMap.Iteration TransferID PendingAck} {w u : Confirmations} {a : Action}

section report
variable {r : Nat} {x : Resolution}

@[simp] theorem report_pending : (report onDelivered w r x).pending = w.pending := by
  rw [report]
  repeat' split
  all_goals rfl

@[simp] theorem report_calls : (report onDelivered w r x).calls = w.calls := by
  rw [report]
  repeat' split
  all_goals rfl

@[simp] theorem report_resolutions :
    (report onDelivered w r x).resolutions = w.resolutions.set r { x with reported := true } := by
  rw [report]
  repeat' split
  all_goals rfl

theorem mem_report_delivered {e : TransferID × String} (h : e ∈ (report onDelivered w r x).delivered) :
    e ∈ w.delivered ∨ e.1 = x.id := by
  rw [report] at h
  dsimp only at h
  split at h
  · split at h
    · exact (mem_append.mp h).imp_right fun h => congrArg Prod.fst (mem_singleton.mp h)
    · exact .inl h
  · exact .inl h

theorem mem_report_closed {k : Nat} (h : k ∈ (report onDelivered w r x).closed) : k ∈ w.closed ∨ k = x.ack.ch := by
  rw [report] at h
  dsimp only at h
  split at h
  · split at h <;> exact .inl h
  · exact (mem_cons.mp h).symm

theorem report_late (h : x.ack.late = true) : (report true w r x).closed = w.closed ∧
    (report true w r x).delivered = w.delivered ++ [(x.id, x.ack.dest)] := by
  rw [report, if_pos h]
  exact ⟨rfl, rfl⟩

theorem report_early (h : x.ack.late = false) : (report onDelivered w r x).closed = x.ack.ch :: w.closed ∧
    (report onDelivered w r x).delivered = w.delivered := by
  rw [report, if_neg (Bool.eq_false_iff.mp h)]
  exact ⟨rfl, rfl⟩

end report

/-- What each action can do. --/
inductive Steps (onDelivered : Bool) (iter : GoMap.Iteration TransferID PendingAck) (w : Confirmations) :
    Action → Confirmations → Prop where
  | registered {id destNode destKey token} : Steps onDelivered iter w (.register id destNode destKey token)
      { w with
        pending := w.pending.register id w.calls.length destKey token
        calls := w.calls ++ [⟨id, destNode, .waiting 0⟩] }
  | confirmed {c x n} : w.calls[c]? = some x → x.phase = .waiting n → c ∈ w.closed →
    Steps onDelivered iter w (.confirmed c) (w.setPhase c x (.leaving .confirmed))
  | timedOut {c x n} : w.calls[c]? = some x → x.phase = .waiting n →
    Steps onDelivered iter w (.timeout c) (w.setPhase c x (afterTimeout n))
  | canceled {c x n} : w.calls[c]? = some x → x.phase = .waiting n →
    Steps onDelivered iter w (.cancel c) (w.setPhase c x (.leaving .canceled))
  | retained {c x} : w.calls[c]? = some x → x.phase = .givingUp → Steps onDelivered iter w (.retain c)
      { w.setPhase c x (.leaving .notConfirmed) with
        pending := w.pending.retainForLateAck iter x.id x.destNode w.now w.now }
  | checked {c x result} : w.calls[c]? = some x → x.phase = .leaving result →
    Steps onDelivered iter w (.check c) (w.setPhase c x (w.deferred x result))
  | unregistered {c x result} : w.calls[c]? = some x → x.phase = .unregistering result →
    Steps onDelivered iter w (.unregister c)
      { w.setPhase c x (.returned result) with pending := GoMap.delete w.pending x.id }
  | accepted {id proof pa} : w.pending.get? id = some pa → pa.accepts proof = true →
    Steps onDelivered iter w (.arrive id proof)
      { w with pending := GoMap.delete w.pending id, resolutions := w.resolutions ++ [⟨id, pa, false⟩] }
  | ignored {id proof} : Steps onDelivered iter w (.arrive id proof) w
  | reported {r x} : w.resolutions[r]? = some x → x.reported = false →
    Steps onDelivered iter w (.report r) (report onDelivered w r x)
  | ticked {elapsed} : Steps onDelivered iter w (.tick elapsed) { w with now := w.now + elapsed }

theorem step_cases (h : step onDelivered iter w a = some u) : Steps onDelivered iter w a u := by
  cases a with
  | register id destNode destKey token =>
    cases h
    exact .registered
  | confirmed c =>
    obtain ⟨x, hx, h⟩ := bind_eq_some_iff.mp h
    split at h
    next n hp =>
      split at h
      next hc =>
        cases h
        exact .confirmed hx hp hc
      · cases h
    · cases h
  | timeout c =>
    obtain ⟨x, hx, h⟩ := bind_eq_some_iff.mp h
    split at h
    next n hp =>
      cases h
      exact .timedOut hx hp
    · cases h
  | cancel c =>
    obtain ⟨x, hx, h⟩ := bind_eq_some_iff.mp h
    split at h
    next n hp =>
      cases h
      exact .canceled hx hp
    · cases h
  | retain c =>
    obtain ⟨x, hx, h⟩ := bind_eq_some_iff.mp h
    split at h
    next hp =>
      cases h
      exact .retained hx hp
    · cases h
  | check c =>
    obtain ⟨x, hx, h⟩ := bind_eq_some_iff.mp h
    split at h
    next result hp =>
      cases h
      exact .checked hx hp
    · cases h
  | unregister c =>
    obtain ⟨x, hx, h⟩ := bind_eq_some_iff.mp h
    split at h
    next result hp =>
      cases h
      exact .unregistered hx hp
    · cases h
  | arrive id proof =>
    cases h
    split
    next pa m hres =>
      obtain ⟨hget, hacc, rfl⟩ := PendingAcks.resolve_eq_some hres
      exact .accepted hget hacc
    · exact .ignored
  | report r =>
    obtain ⟨x, hx, h⟩ := bind_eq_some_iff.mp h
    split at h
    · cases h
    next hr =>
      cases h
      exact .reported hx (Bool.eq_false_iff.mpr hr)
  | tick elapsed =>
    cases h
    exact .ticked

end Confirmations
end SyncSwarm.Transfer
