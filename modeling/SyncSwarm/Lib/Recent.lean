import Mathlib.Data.List.DropRight
import Mathlib.Data.List.Nodup

/-! A list of bounded length that keeps what was sighted last: a sighting moves its key to the end, and
    makes room by dropping the first. -/

namespace SyncSwarm.Lib

variable {α κ : Type} [DecidableEq κ]

def sight (key : α → κ) (k : Nat) (l : List α) (a : α) : List α :=
  match l.findIdx? (fun b => key b = key a) with
  | some i => l.eraseIdx i ++ [a]
  | none => (if l.length ≥ k then l.drop 1 else l) ++ [a]

def latest (key : α → κ) : List α → List α
  | [] => []
  | a :: as => if key a ∈ as.map key then latest key as else a :: latest key as

variable {key : α → κ}

theorem mem_sight {k : Nat} {l : List α} {a b : α} (h : b ∈ sight key k l a) : b ∈ l ∨ b = a := by
  rw [sight] at h
  split at h
  next i _ =>
    rcases List.mem_append.mp h with h | h
    · exact .inl (List.mem_of_mem_eraseIdx h)
    · exact .inr (List.mem_singleton.mp h)
  · rcases List.mem_append.mp h with h | h
    · split at h
      · exact .inl (List.mem_of_mem_drop h)
      · exact .inl h
    · exact .inr (List.mem_singleton.mp h)

theorem length_sight_le {k : Nat} (hk : 0 < k) {l : List α} (hl : l.length ≤ k) (a : α) :
    (sight key k l a).length ≤ k := by
  rw [sight]
  split
  next i hfound =>
    have hi : i < l.length := (List.findIdx?_eq_some_iff_findIdx_eq.mp hfound).1
    rw [List.length_append, List.length_eraseIdx_of_lt hi, List.length_singleton]
    omega
  · rw [List.length_append, List.length_singleton]
    split
    · rw [List.length_drop]
      omega
    · omega

theorem latest_sublist (l : List α) : (latest key l).Sublist l := by
  induction l with
  | nil => exact List.Sublist.refl []
  | cons a as ih =>
    rw [latest]
    split
    · exact ih.cons a
    · exact ih.cons_cons a

theorem nodup_latest (l : List α) : ((latest key l).map key).Nodup := by
  induction l with
  | nil => exact List.nodup_nil
  | cons a as ih =>
    rw [latest]
    split
    · exact ih
    next hlater =>
      exact List.nodup_cons.mpr ⟨fun h => hlater (((latest_sublist as).map key).subset h), ih⟩

theorem latest_append (l : List α) (a : α) :
    latest key (l ++ [a]) = (latest key l).filter (fun b => key b ≠ key a) ++ [a] := by
  induction l with
  | nil => rfl
  | cons b l ih =>
    have hmem : key b ∈ (l ++ [a]).map key ↔ key b ∈ l.map key ∨ key b = key a := by simp
    rw [List.cons_append, latest, latest, ih]
    by_cases hlater : key b ∈ l.map key
    · rw [if_pos (hmem.mpr (.inl hlater)), if_pos hlater]
    · by_cases heq : key b = key a
      · rw [if_pos (hmem.mpr (.inr heq)), if_neg hlater, List.filter_cons_of_neg (by simpa using heq)]
      · have hlast : key b ∉ (l ++ [a]).map key := fun h => (hmem.mp h).elim hlater heq
        rw [if_neg hlast, if_neg hlater, List.filter_cons_of_pos (by simpa using heq), List.cons_append]

theorem eq_append_rtake (l : List α) (k : Nat) :
    ∃ before, l = before ++ l.rtake k ∧ (l.rtake k).length ≤ k ∧ ((l.rtake k).length = k ∨ before = []) := by
  refine ⟨l.take (l.length - k), (List.take_append_drop _ l).symm, ?_, ?_⟩
  · rw [List.rtake, List.length_drop]
    omega
  · rw [List.rtake, List.length_drop, List.take_eq_nil_iff]
    omega

theorem rtake_append_of_le {k : Nat} {before l : List α} (h : k ≤ l.length) : (before ++ l).rtake k = l.rtake k := by
  rw [List.rtake, List.length_append, List.rtake, Nat.add_sub_assoc h, List.drop_append]
  simp

theorem rtake_of_length_le {k : Nat} {l : List α} (h : l.length ≤ k) : l.rtake k = l := by
  rw [List.rtake, Nat.sub_eq_zero_of_le h, List.drop_zero]

theorem filter_eq_eraseIdx {l : List α} (hl : (l.map key).Nodup) {a : α} {i : Nat}
    (h : l.findIdx? (fun b => key b = key a) = some i) : l.filter (fun b => key b ≠ key a) = l.eraseIdx i := by
  induction l generalizing i with
  | nil => cases h
  | cons b l ih =>
    obtain ⟨hnot, hl⟩ := List.nodup_cons.mp hl
    rw [List.findIdx?_cons] at h
    by_cases heq : key b = key a
    · have hi : i = 0 := by simpa [heq] using h.symm
      have hrest : ∀ c ∈ l, key c ≠ key a := fun c hc hkey => hnot (List.mem_map.mpr ⟨c, hc, hkey.trans heq.symm⟩)
      rw [hi, List.filter_cons_of_neg (by simpa using heq), List.eraseIdx_cons_zero]
      exact List.filter_eq_self.mpr fun c hc => by simpa using hrest c hc
    · rw [if_neg (by simpa using heq)] at h
      obtain ⟨j, hj, rfl⟩ := Option.map_eq_some_iff.mp h
      rw [List.filter_cons_of_pos (by simpa using heq), ih hl hj, List.eraseIdx_cons_succ]

theorem nodup_sight {k : Nat} {l : List α} (hl : (l.map key).Nodup) (a : α) : ((sight key k l a).map key).Nodup := by
  rw [sight]
  split
  next i hfound =>
    rw [← filter_eq_eraseIdx hl hfound, List.map_append, List.map_singleton]
    refine List.nodup_append.mpr ⟨hl.sublist (List.filter_sublist.map key), List.nodup_singleton _, ?_⟩
    rintro x hx y hy rfl
    obtain ⟨b, hb, hkey⟩ := List.mem_map.mp hx
    exact absurd (hkey.trans (List.mem_singleton.mp hy)) (by simpa using (List.mem_filter.mp hb).2)
  next hnone =>
    have hnot : ∀ b ∈ l, key b ≠ key a := fun b hb => by simpa using List.findIdx?_eq_none_iff.mp hnone b hb
    rw [List.map_append, List.map_singleton]
    have hrest : (if l.length ≥ k then l.drop 1 else l).Sublist l := by
      split
      · exact List.drop_sublist 1 l
      · exact List.Sublist.refl l
    refine List.nodup_append.mpr ⟨hl.sublist (hrest.map key), List.nodup_singleton _, ?_⟩
    rintro x hx y hy rfl
    obtain ⟨b, hb, hkey⟩ := List.mem_map.mp hx
    exact absurd (hkey.trans (List.mem_singleton.mp hy)) (hnot b (hrest.subset hb))

theorem sight_rtake {k : Nat} (hk : 0 < k) {l : List α} (hl : (l.map key).Nodup) (a : α) :
    sight key k (l.rtake k) a = (l.filter (fun b => key b ≠ key a) ++ [a]).rtake k := by
  obtain ⟨j, rfl⟩ : ∃ j, k = j + 1 := ⟨k - 1, by omega⟩
  obtain ⟨before, hsplit, hle, hfull⟩ := eq_append_rtake l (j + 1)
  generalize l.rtake (j + 1) = kept at hsplit hle hfull
  have hkept : (kept.map key).Nodup := by
    rw [hsplit, List.map_append] at hl
    exact (List.nodup_append.mp hl).2.1
  rw [List.rtake_concat_succ, hsplit, List.filter_append, sight]
  split
  next i hfound =>
    -- The key is among those kept: with it gone they are one fewer than before.
    have hi : i < kept.length := (List.findIdx?_eq_some_iff_findIdx_eq.mp hfound).1
    rw [filter_eq_eraseIdx hkept hfound]
    congr 1
    have hlen := List.length_eraseIdx_of_lt hi
    rcases hfull with hfull | rfl
    · rw [rtake_append_of_le (by omega), rtake_of_length_le (by omega)]
    · rw [List.filter_nil, List.nil_append, rtake_of_length_le (by omega)]
  next hnone =>
    have hself : kept.filter (fun b => key b ≠ key a) = kept :=
      List.filter_eq_self.mpr fun b hb => by simpa using List.findIdx?_eq_none_iff.mp hnone b hb
    rw [hself]
    congr 1
    split
    next hroom =>
      have hlen : kept.length = j + 1 := by omega
      rw [rtake_append_of_le (by omega), List.rtake, hlen, Nat.add_sub_cancel_left]
    next hroom =>
      rcases hfull with hfull | rfl
      · omega
      · rw [List.filter_nil, List.nil_append, rtake_of_length_le (by omega)]

/-- After any sightings the list holds the `k` keys that were sighted last, each as it was sighted last. --/
theorem foldl_sight {k : Nat} (hk : 0 < k) (l : List α) : l.foldl (sight key k) [] = (latest key l).rtake k := by
  induction l using List.reverseRecOn with
  | nil => simp [latest]
  | append_singleton l a ih =>
    rw [List.foldl_append, ih, List.foldl_cons, List.foldl_nil, sight_rtake hk (nodup_latest l), latest_append]

end SyncSwarm.Lib
