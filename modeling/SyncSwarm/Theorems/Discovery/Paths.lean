import SyncSwarm.Discovery.Paths

/-! What an update does to the path table: the entry of its destination gets fresher or shorter, and the others stay or
    are evicted. -/

namespace SyncSwarm.Discovery
open Lib Protocol List GoMap

/-- The order in which entries replace one another: a newer announce, or the same one over fewer hops. --/
def PathEntry.Better (e old : PathEntry) : Prop :=
  old.originTS < e.originTS ∨ e.originTS = old.originTS ∧ e.hops < old.hops

namespace PathEntry
variable {a b c : PathEntry}

instance (e old : PathEntry) : Decidable (e.Better old) := inferInstanceAs (Decidable (_ ∨ _))

theorem Better.irrefl (a : PathEntry) : ¬a.Better a := by
  rintro (h | ⟨-, h⟩)
  · exact Int.lt_irrefl _ h
  · exact UInt8.lt_irrefl _ h

theorem Better.trans (hab : a.Better b) (hbc : b.Better c) : a.Better c := by
  rcases hab with hab | ⟨hts, hab⟩
  · rcases hbc with hbc | ⟨hts, -⟩
    · exact .inl (Int.lt_trans hbc hab)
    · exact .inl (hts ▸ hab)
  · rcases hbc with hbc | ⟨hts', hbc⟩
    · exact .inl (hts ▸ hbc)
    · exact .inr ⟨hts.trans hts', UInt8.lt_trans hab hbc⟩

end PathEntry

namespace PathTable
variable {iter : GoMap.Iteration String PathEntry} {pt : PathTable} {dest D : String} {e e' : PathEntry}
  {writer : Writer}

def Accepts (pt : PathTable) (dest : String) (e : PathEntry) : Prop := ∀ cur ∈ pt.lookup dest, e.Better cur

instance (pt : PathTable) (dest : String) (e : PathEntry) : Decidable (pt.Accepts dest e) :=
  inferInstanceAs (Decidable (∀ cur ∈ pt.lookup dest, e.Better cur))

theorem better_iff {cur : PathEntry} :
    e.Better cur ↔ ¬e.originTS < cur.originTS ∧ ¬(e.originTS = cur.originTS ∧ cur.hops ≤ e.hops) := by
  rw [PathEntry.Better, UInt8.lt_iff_toNat_lt, UInt8.le_iff_toNat_le]
  omega

theorem update_cases (iter : GoMap.Iteration String PathEntry) (pt : PathTable) (dest : String) (e : PathEntry)
    (writer : Writer) :
    pt.Accepts dest e ∧ pt.update iter dest e writer = (pt.store iter dest e writer, true) ∨
    ¬pt.Accepts dest e ∧ (pt.update iter dest e writer = (pt, false) ∨ ∃ cur, pt.lookup dest = some cur ∧
      pt.update iter dest e writer =
        ({ pt with entries := pt.entries.set dest { cur with lastSeen := e.lastSeen } }, false)) := by
  rw [update, Accepts]
  split
  next cur hcur =>
    rw [hcur]
    split
    · next hold => exact .inr ⟨fun h => (better_iff.mp (h cur rfl)).1 hold, .inl rfl⟩
    next hold =>
      split
      · next hsame => exact .inr ⟨fun h => (better_iff.mp (h cur rfl)).2 hsame, .inr ⟨cur, rfl, rfl⟩⟩
      · next hsame => exact .inl ⟨fun c hc => Option.some.inj hc ▸ better_iff.mpr ⟨hold, hsame⟩, rfl⟩
  next hnone =>
    refine .inl ⟨fun c hc => ?_, rfl⟩
    rw [hnone] at hc
    cases hc

theorem update_stored (h : (pt.update iter dest e writer).2 = true) :
    pt.Accepts dest e ∧ (pt.update iter dest e writer).1 = pt.store iter dest e writer := by
  rcases update_cases iter pt dest e writer with ⟨haccepts, heq⟩ | ⟨-, heq | ⟨cur, -, heq⟩⟩
  · rw [heq]
    exact ⟨haccepts, rfl⟩
  · rw [heq] at h
    cases h
  · rw [heq] at h
    cases h

theorem lookup_evict (h : (pt.evictOldestLocked iter).lookup D = some e) : pt.lookup D = some e := by
  rw [evictOldestLocked] at h
  split at h
  next k _ _ =>
    split at h
    · rw [lookup] at h
      by_cases hk : D = k
      · rw [hk, get?_delete_self] at h
        cases h
      · rwa [get?_delete_ne _ hk] at h
    · exact h
  · exact h

theorem lookup_store (h : (pt.store iter dest e writer).lookup D = some e') :
    D = dest ∧ e' = e ∨ D ≠ dest ∧ pt.lookup D = some e' := by
  have hset : (pt.entries.set dest e).get? D = some e' := by
    rw [store] at h
    split at h
    · exact lookup_evict h
    · exact h
  rw [get?_set] at hset
  split at hset
  · next hD => exact .inl ⟨hD, (Option.some.inj hset).symm⟩
  · next hD => exact .inr ⟨hD, hset⟩

theorem lookup_update (h : (pt.update iter dest e writer).1.lookup D = some e') :
    D = dest ∧ e' = e ∧ pt.Accepts dest e ∨ ∃ old lastSeen, pt.lookup D = some old ∧ e' = { old with lastSeen } := by
  rcases update_cases iter pt dest e writer with ⟨haccepts, heq⟩ | ⟨-, heq | ⟨cur, hcur, heq⟩⟩
  · rw [heq] at h
    rcases lookup_store h with ⟨hD, he⟩ | ⟨-, hold⟩
    · exact .inl ⟨hD, he, haccepts⟩
    · exact .inr ⟨e', e'.lastSeen, hold, rfl⟩
  · rw [heq] at h
    exact .inr ⟨e', e'.lastSeen, h, rfl⟩
  · rw [heq, lookup, get?_set] at h
    split at h
    · next hD => exact .inr ⟨cur, e.lastSeen, hD ▸ hcur, (Option.some.inj h).symm⟩
    · exact .inr ⟨e', e'.lastSeen, h, rfl⟩

/-! ### Histories -/

theorem evicted_evictOldestLocked (iter : GoMap.Iteration String PathEntry) (pt : PathTable) :
    pt.evicted <:+ (pt.evictOldestLocked iter).evicted := by
  rw [evictOldestLocked]
  split
  · split
    · exact suffix_cons _ _
    · exact suffix_rfl
  · exact suffix_rfl

theorem lookup_evict_of_kept (h : (pt.evictOldestLocked iter).evicted.count D = pt.evicted.count D) :
    (pt.evictOldestLocked iter).lookup D = pt.lookup D := by
  rw [evictOldestLocked] at h ⊢
  split at h
  next k _ _ =>
    split at h
    next hk =>
      have hD : D ≠ k := by
        rintro rfl
        rw [count_cons_self] at h
        exact absurd h (Nat.succ_ne_self _)
      rw [if_pos hk, lookup, get?_delete_ne _ hD, lookup]
    · next hk => rw [if_neg hk]
  · rfl

theorem stored_evictOldestLocked (iter : GoMap.Iteration String PathEntry) (pt : PathTable) :
    (pt.evictOldestLocked iter).stored = pt.stored := by
  rw [evictOldestLocked]
  split
  · split <;> rfl
  · rfl

theorem evicted_store : pt.evicted <:+ (pt.store iter dest e writer).evicted := by
  rw [store]
  split
  · exact evicted_evictOldestLocked iter
      { pt with entries := pt.entries.set dest e, stored := (dest, writer) :: pt.stored }
  · exact suffix_rfl

theorem stored_store : (pt.store iter dest e writer).stored = (dest, writer) :: pt.stored := by
  rw [store]
  split
  · exact stored_evictOldestLocked iter _
  · rfl

theorem lookup_store_of_kept (h : (pt.store iter dest e writer).evicted.count D = pt.evicted.count D) :
    (pt.store iter dest e writer).lookup D = if D = dest then some e else pt.lookup D := by
  have hset : (pt.store iter dest e writer).lookup D = (pt.entries.set dest e).get? D := by
    rw [store] at h ⊢
    split at h
    next hlen =>
      rw [if_pos hlen]
      exact lookup_evict_of_kept h
    next hlen =>
      rw [if_neg hlen]
      rfl
  rw [hset, get?_set]
  rfl

theorem evicted_update : pt.evicted <:+ (pt.update iter dest e writer).1.evicted := by
  rcases update_cases iter pt dest e writer with ⟨-, heq⟩ | ⟨-, heq | ⟨cur, -, heq⟩⟩
  · rw [heq]
    exact evicted_store
  · simp only [heq, suffix_rfl]
  · simp only [heq, suffix_rfl]

theorem stored_update : pt.stored <:+ (pt.update iter dest e writer).1.stored := by
  rcases update_cases iter pt dest e writer with ⟨-, heq⟩ | ⟨-, heq | ⟨cur, -, heq⟩⟩
  · rw [heq, stored_store]
    exact suffix_cons _ _
  · simp only [heq, suffix_rfl]
  · simp only [heq, suffix_rfl]

theorem lookup_update_of_kept (h : (pt.update iter dest e writer).1.evicted.count D = pt.evicted.count D) :
    D = dest ∧ pt.Accepts dest e ∧ (dest, writer) ∈ (pt.update iter dest e writer).1.stored ∧
        (pt.update iter dest e writer).1.lookup D = some e ∨
      (pt.update iter dest e writer).1.lookup D = pt.lookup D ∨
      ∃ old lastSeen, pt.lookup D = some old ∧ (pt.update iter dest e writer).1.lookup D =
        some { old with lastSeen } := by
  rcases update_cases iter pt dest e writer with ⟨haccepts, heq⟩ | ⟨-, heq | ⟨cur, hcur, heq⟩⟩
  · rw [heq] at h ⊢
    rw [lookup_store_of_kept h, stored_store]
    by_cases hD : D = dest
    · exact .inl ⟨hD, haccepts, mem_cons_self, if_pos hD⟩
    · exact .inr (.inl (if_neg hD))
  · rw [heq]
    exact .inr (.inl rfl)
  · rw [heq]
    refine .inr ?_
    by_cases hD : D = dest
    · exact .inr ⟨cur, e.lastSeen, hD ▸ hcur, by rw [lookup, get?_set, if_pos hD]⟩
    · exact .inl (by rw [lookup, get?_set, if_neg hD, lookup])

end PathTable
end SyncSwarm.Discovery
