import SyncSwarm.Theorems.Acks.Moves

/-! The registrations that are kept for a late acknowledgement. -/

namespace SyncSwarm.Transfer
open Lib Protocol List Option GoMap

namespace PendingAcks
variable {iter : GoMap.Iteration TransferID PendingAck} {m m' : PendingAcks} {id i : TransferID} {pa : PendingAck}

/-- The loop over the cap runs to its end: from the first table it comes to the second. --/
inductive Evicts (iter : GoMap.Iteration TransferID PendingAck) : PendingAcks → PendingAcks → Prop where
  | done {m : PendingAcks} : m.len ≤ maxLateAcks → Evicts iter m m
  | spared {m : PendingAcks} : oldestLate (iter.order m) = none → Evicts iter m m
  | round {m m' : PendingAcks} {old : TransferID × PendingAck} : maxLateAcks < m.len →
    oldestLate (iter.order m) = some old → Evicts iter (m.delete old.1) m' →
    Evicts iter m m'

theorem get?_oldestLate {old : TransferID × PendingAck} (h : oldestLate (iter.order m) = some old) :
    m.get? old.1 = some old.2 :=
  mem_entries.mp ((iter.perm m).mem_iff.mp (oldestLate_spec h).1)

theorem mem_late {j : TransferID} {qa : PendingAck} (hget : m.get? j = some qa) (hlate : qa.late = true) :
    (j, qa) ∈ (iter.order m).filter (·.2.late) :=
  mem_filter.mpr ⟨(iter.perm m).mem_iff.mpr (mem_entries.mpr hget), hlate⟩

theorem oldestLate_le {old : TransferID × PendingAck} (h : oldestLate (iter.order m) = some old) {j : TransferID}
    {qa : PendingAck} (hget : m.get? j = some qa) (hlate : qa.late = true) : old.2.expires ≤ qa.expires :=
  firstMin_le (f := fun e : TransferID × PendingAck => e.2.expires) h _ (mem_late hget hlate)

theorem evicts_dropLate (iter : GoMap.Iteration TransferID PendingAck) {rounds : Nat} (h : m.len ≤ rounds) :
    Evicts iter m (dropLate iter rounds m) := by
  induction rounds generalizing m with
  | zero => exact .done (h.trans (Nat.zero_le _))
  | succ rounds ih =>
    rw [dropLate]
    split
    next hmore =>
      split
      next old hold =>
        have hless := len_delete_lt (k := old.1) (Option.isSome_of_eq_some (get?_oldestLate hold))
        exact .round hmore hold (ih (by omega))
      next hnone => exact .spared hnone
    next hfew => exact .done (Nat.le_of_not_lt hfew)

def lateAcks (m : PendingAcks) : Nat := GoMap.count m fun _ v => v.late

namespace Evicts

theorem lateAcks_le (h : Evicts iter m m') : m'.lateAcks ≤ maxLateAcks := by
  induction h with
  | done hfew => exact (Nat.le_add_right _ _).trans ((len_eq_count_add _ fun _ v => v.late).symm.trans_le hfew)
  | @spared m hnone =>
    have hempty : (iter.order m).filter (·.2.late) = [] := by
      by_contra hne
      exact firstMin_ne_none hne hnone
    rw [lateAcks, GoMap.count, ← (iter.perm m).countP_eq, countP_eq_length_filter, hempty]
    exact Nat.zero_le _
  | round _ _ _ ih => exact ih

theorem get?_of_kept (h : Evicts iter m m') (hget : m'.get? i = some pa) : m.get? i = some pa := by
  induction h with
  | done | spared => exact hget
  | @round m m' old _ _ _ ih =>
    have hrest := ih hget
    rwa [get?_delete_ne m fun heq => by simp [heq] at hrest] at hrest

theorem dropped (h : Evicts iter m m') (hget : m.get? i = some pa) (hgone : m'.get? i = none) : maxLateAcks < m.len ∧
    ∀ (j : TransferID) (qa : PendingAck), m'.get? j = some qa → qa.late = true → pa.expires ≤ qa.expires := by
  induction h with
  | done | spared => simp [hget] at hgone
  | @round m m' old hmore hold hrest ih =>
    by_cases hi : i = old.1
    · obtain rfl : pa = old.2 := Option.some.inj (hget.symm.trans (hi ▸ get?_oldestLate hold))
      refine ⟨hmore, fun j qa hj => ?_⟩
      exact oldestLate_le hold ((Evicts.round hmore hold hrest).get?_of_kept hj)
    · obtain ⟨-, hspec⟩ := ih ((get?_delete_ne m hi).trans hget) hgone
      exact ⟨hmore, hspec⟩

end Evicts

theorem evicts_retain (iter : GoMap.Iteration TransferID PendingAck) (dest : String) (marked now : Nat)
    (h : m.get? id = some pa) :
    Evicts iter ((m.markLate id pa dest marked).sweepLate now) (m.retainForLateAck iter id dest marked now) := by
  rw [retainForLateAck, h]
  exact evicts_dropLate iter (Nat.le_refl _)

theorem get?_sweepLate {now : Nat} (hget : m.get? i = some pa) (hfresh : now ≤ pa.expires) :
    (m.sweepLate now).get? i = some pa := by
  rw [sweepLate, get?_filter, hget]
  simp [Option.filter, Nat.not_lt.mpr hfresh]

theorem after_resolve (m : PendingAcks) (id : TransferID) (proof : AckProof) :
    m.after (.resolve id proof) = m ∨ m.after (.resolve id proof) = GoMap.delete m id ∧
      ∃ pa ∈ m.get? id, pa.accepts proof = true := by
  cases h : m.resolve id proof with
  | none => exact .inl (by rw [after, h]; rfl)
  | some e =>
    obtain ⟨hget, haccepts, hdelete⟩ := resolve_eq_some h
    exact .inr ⟨by rw [after, h, ← hdelete]; rfl, e.1, hget, haccepts⟩

theorem lateAcks_after (c : Call) (h : m.lateAcks ≤ maxLateAcks) : (m.after c).lateAcks ≤ maxLateAcks := by
  cases c with
  | register id ch destKey token => exact (count_set_le m rfl).trans h
  | resolve id proof =>
    rcases after_resolve m id proof with heq | ⟨heq, -⟩
    · rwa [heq]
    · rw [heq]
      exact (count_delete_le m id _).trans h
  | unregister id => exact (count_delete_le m id _).trans h
  | retain id dest marked now iter =>
    cases hget : m.get? id with
    | none => rwa [after, retainForLateAck, hget]
    | some pa => exact (evicts_retain iter dest marked now hget).lateAcks_le

theorem lateAcks_run (calls : List Call) : (calls.foldl after ∅).lateAcks ≤ maxLateAcks :=
  foldlRecOn calls after (motive := fun m : PendingAcks => m.lateAcks ≤ maxLateAcks) (Nat.zero_le _) fun _ h c _ =>
    lateAcks_after c h

/-- What the call does to a registration that is waited on, if it does not leave it: its acknowledgement has come, it
    is taken back or made anew, or its send gives up and does not wait any more. --/
inductive Call.Ends (id : TransferID) (pa : PendingAck) : Call → PendingAcks → Prop where
  | resolved {m : PendingAcks} {proof : AckProof} : pa.accepts proof = true → Call.Ends id pa (.resolve id proof) m
  | unregistered {m : PendingAcks} : Call.Ends id pa (.unregister id) m
  | renewed {m : PendingAcks} {ch : Nat} {destKey token : Bytes} : m.get? id = some { ch, destKey, token } →
    Call.Ends id pa (.register id ch destKey token) m
  | gaveUp {m : PendingAcks} {dest marked now iter} : Call.Ends id pa (.retain id dest marked now iter) m

theorem waiting_after (c : Call) (hget : m.get? id = some pa) (hwaits : pa.late = false) :
    (m.after c).get? id = some pa ∨ c.Ends id pa (m.after c) := by
  cases c with
  | register j ch destKey token =>
    by_cases hj : id = j
    · subst hj
      exact .inr (.renewed (get?_set_self m _ _))
    · exact .inl ((get?_set_ne m _ hj).trans hget)
  | resolve j proof =>
    rcases after_resolve m j proof with heq | ⟨heq, qa, hqa, haccepts⟩
    · exact .inl (by rwa [heq])
    · by_cases hj : id = j
      · subst hj
        exact .inr (.resolved (Option.mem_unique hqa hget ▸ haccepts))
      · exact .inl (by rw [heq, get?_delete_ne m hj, hget])
  | unregister j =>
    by_cases hj : id = j
    · subst hj
      exact .inr .unregistered
    · exact .inl ((get?_delete_ne m hj).trans hget)
  | retain j dest marked now iter =>
    by_cases hj : id = j
    · subst hj
      exact .inr .gaveUp
    · have hother : (m.retainForLateAck iter j dest marked now).get? id = m.get? id ∨ _ := get?_retain_other hj
      rcases hother with heq | ⟨-, hlate⟩
      · exact .inl (heq.trans hget)
      · simp [hget, hwaits] at hlate

/-- What a call keeps of a table, whatever calls have made it. --/
structure Retains (m : PendingAcks) (c : Call) : Prop where
  waiting : ∀ (id : TransferID) (pa : PendingAck), m.get? id = some pa → pa.late = false →
    (m.after c).get? id = some pa ∨ c.Ends id pa (m.after c)
  bounded : (m.after c).lateAcks ≤ maxLateAcks
  /-- The loop over the cap ends. What it drops of the unexpired late registrations, it drops because there are too many
      registrations, and no late one that stays expires earlier. -/
  evicted : ∀ (id : TransferID) (pa : PendingAck) (dest : String) (marked now : Nat)
      (iter : GoMap.Iteration TransferID PendingAck),
    c = .retain id dest marked now iter → m.get? id = some pa →
    Evicts iter ((m.markLate id pa dest marked).sweepLate now) (m.after c) ∧
    ∀ (i : TransferID) (qa : PendingAck), (m.markLate id pa dest marked).get? i = some qa → now ≤ qa.expires →
      (m.after c).get? i = none → maxLateAcks < ((m.markLate id pa dest marked).sweepLate now).len ∧
      ∀ (j : TransferID) (ra : PendingAck), (m.after c).get? j = some ra → ra.late = true → qa.expires ≤ ra.expires

/-- In every interleaving of the calls a registration that is waited on stays until its own transfer ends it, at most
    `maxLateAcks` late ones are kept, and those that expire first are dropped first. --/
theorem late_acks_retained (calls : List Call) (c : Call) : Retains (calls.foldl after ∅) c where
  waiting _ _ := waiting_after c
  bounded := lateAcks_after c (lateAcks_run calls)
  evicted id pa dest marked now iter hc hget := by
    subst hc
    have hevicts := evicts_retain iter dest marked now hget
    exact ⟨hevicts, fun i qa hqa hfresh hgone => hevicts.dropped (get?_sweepLate hqa hfresh) hgone⟩

end PendingAcks
end SyncSwarm.Transfer
