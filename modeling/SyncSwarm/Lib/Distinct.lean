import Mathlib.Data.Finset.Card
import Mathlib.Data.Finset.Dedup

/-! Choosing elements of a list with different keys. -/

namespace SyncSwarm.Lib

variable {α κ : Type} [DecidableEq κ]

def takeNew (key : α → κ) : Nat → List κ → List α → List α
  | _, _, [] => []
  | n, used, a :: as =>
    if n = 0 then []
    else if key a ∈ used then takeNew key n used as
    else a :: takeNew key (n - 1) (key a :: used) as

def countNew (key : α → κ) (used : List κ) (as : List α) : Nat := (takeNew key as.length used as).length

variable {key : α → κ}

theorem takeNew_sublist (n : Nat) (used : List κ) (as : List α) : (takeNew key n used as).Sublist as := by
  induction as generalizing n used with
  | nil => exact List.Sublist.refl []
  | cons a as ih =>
    rw [takeNew]
    split
    · exact List.nil_sublist _
    · split
      · exact (ih n used).cons a
      · exact (ih (n - 1) (key a :: used)).cons_cons a

@[simp] theorem takeNew_zero (used : List κ) (as : List α) : takeNew key 0 used as = [] := by
  cases as with
  | nil => rfl
  | cons a as => rw [takeNew, if_pos rfl]

theorem takeNew_notMem {n : Nat} {used : List κ} {as : List α} : ∀ a ∈ takeNew key n used as, key a ∉ used := by
  induction as generalizing n used with
  | nil => exact nofun
  | cons b as ih =>
    rw [takeNew]
    split
    · exact nofun
    · split
      · exact ih
      next hused =>
        intro a ha
        rcases List.mem_cons.mp ha with rfl | ha
        · exact hused
        · exact fun h => ih a ha (List.mem_cons_of_mem _ h)

theorem nodup_takeNew (n : Nat) (used : List κ) (as : List α) : ((takeNew key n used as).map key).Nodup := by
  induction as generalizing n used with
  | nil => exact List.nodup_nil
  | cons a as ih =>
    rw [takeNew]
    split
    · exact List.nodup_nil
    · split
      · exact ih n used
      · refine List.nodup_cons.mpr ⟨fun h => ?_, ih (n - 1) (key a :: used)⟩
        obtain ⟨b, hb, heq⟩ := List.mem_map.mp h
        exact takeNew_notMem b hb (heq ▸ List.mem_cons_self)

theorem find?_of_mem_takeNew {n : Nat} {used : List κ} {as : List α} :
    ∀ a ∈ takeNew key n used as, as.find? (fun b => key b = key a) = some a := by
  induction as generalizing n used with
  | nil => exact nofun
  | cons b as ih =>
    intro a ha
    by_cases heq : key b = key a
    · rw [List.find?_cons_of_pos (by simpa using heq)]
      rw [takeNew] at ha
      split at ha
      · cases ha
      · split at ha
        · next hused => exact absurd (heq ▸ hused) (takeNew_notMem a ha)
        · rcases List.mem_cons.mp ha with rfl | ha
          · rfl
          · exact absurd (heq ▸ List.mem_cons_self) (takeNew_notMem a ha)
    · rw [List.find?_cons_of_neg (by simpa using heq)]
      rw [takeNew] at ha
      split at ha
      · cases ha
      · split at ha
        · exact ih a ha
        · rcases List.mem_cons.mp ha with rfl | ha
          · exact absurd rfl heq
          · exact ih a ha

theorem key_mem_takeNew {n : Nat} {used : List κ} {as : List α} (h : (takeNew key n used as).length < n) :
    ∀ a ∈ as, key a ∈ used ∨ key a ∈ (takeNew key n used as).map key := by
  induction as generalizing n used with
  | nil => exact nofun
  | cons b as ih =>
    have hn : n ≠ 0 := Nat.ne_of_gt (Nat.zero_lt_of_lt h)
    rw [takeNew, if_neg hn] at h ⊢
    by_cases hused : key b ∈ used
    · rw [if_pos hused] at h ⊢
      intro a ha
      rcases List.mem_cons.mp ha with rfl | ha
      · exact .inl hused
      · exact ih h a ha
    · rw [if_neg hused] at h ⊢
      have hroom : (takeNew key (n - 1) (key b :: used) as).length < n - 1 := by
        rw [List.length_cons] at h
        omega
      intro a ha
      rcases List.mem_cons.mp ha with rfl | ha
      · exact .inr List.mem_cons_self
      · rcases ih hroom a ha with hkey | hkey
        · rcases List.mem_cons.mp hkey with heq | hkey
          · exact .inr (List.mem_cons.mpr (.inl heq))
          · exact .inl hkey
        · exact .inr (List.mem_cons_of_mem _ hkey)

/-! ### The first of each -/

/-- The first element with each key that was not used before. --/
def firsts (key : α → κ) (used : List κ) (as : List α) : List α := takeNew key as.length used as

theorem takeNew_of_length_le {n : Nat} {used : List κ} {as : List α} (h : as.length ≤ n) :
    takeNew key n used as = firsts key used as := by
  rw [firsts]
  induction as generalizing n used with
  | nil => rfl
  | cons a as ih =>
    rw [List.length_cons] at h
    rw [takeNew, List.length_cons, takeNew, if_neg (by omega), if_neg (Nat.succ_ne_zero _), @ih n used (by omega),
      @ih (as.length + 1) used (by omega), @ih (n - 1) _ (by omega), Nat.add_sub_cancel]

theorem firsts_cons (used : List κ) (a : α) (as : List α) :
    firsts key used (a :: as) = if key a ∈ used then firsts key used as else a :: firsts key (key a :: used) as := by
  rw [firsts, List.length_cons, takeNew, if_neg (Nat.succ_ne_zero _), takeNew_of_length_le (Nat.le_succ _),
    Nat.add_sub_cancel]
  rfl

theorem firsts_append_of_mem {used : List κ} {as : List α} {a : α} (h : key a ∈ used ∨ key a ∈ as.map key) :
    firsts key used (as ++ [a]) = firsts key used as := by
  induction as generalizing used with
  | nil =>
    rw [List.nil_append, firsts_cons, if_pos (h.resolve_right List.not_mem_nil)]
  | cons b as ih =>
    rw [List.cons_append, firsts_cons, firsts_cons]
    split
    next hused =>
      apply ih
      rcases h with h | h
      · exact .inl h
      · rcases List.mem_cons.mp h with heq | h
        · exact .inl (heq ▸ hused)
        · exact .inr h
    · rw [ih]
      rcases h with h | h
      · exact .inl (List.mem_cons_of_mem _ h)
      · rcases List.mem_cons.mp h with heq | h
        · exact .inl (List.mem_cons.mpr (.inl heq))
        · exact .inr h

theorem firsts_append_of_new {used : List κ} {as : List α} {a : α} (hused : key a ∉ used) (has : key a ∉ as.map key) :
    firsts key used (as ++ [a]) = firsts key used as ++ [a] := by
  induction as generalizing used with
  | nil => rw [List.nil_append, firsts_cons, if_neg hused]; rfl
  | cons b as ih =>
    obtain ⟨hne, has⟩ := not_or.mp (fun h => has (List.mem_cons.mpr h))
    rw [List.cons_append, firsts_cons, firsts_cons]
    split
    · exact ih hused has
    · rw [ih (List.not_mem_cons_of_ne_of_not_mem hne hused) has, List.cons_append]

theorem firsts_of_nodup {used : List κ} {as : List α} (hused : ∀ a ∈ as, key a ∉ used) (has : (as.map key).Nodup) :
    firsts key used as = as := by
  induction as generalizing used with
  | nil => rfl
  | cons a as ih =>
    obtain ⟨hnot, has⟩ := List.nodup_cons.mp has
    rw [firsts_cons, if_neg (hused a List.mem_cons_self), ih _ has]
    intro b hb hmem
    rcases List.mem_cons.mp hmem with heq | hmem
    · exact hnot (List.mem_map.mpr ⟨b, hb, heq⟩)
    · exact hused b (List.mem_cons_of_mem _ hb) hmem

theorem key_mem_firsts {used : List κ} {as : List α} {a : α} (ha : a ∈ as) (hused : key a ∉ used) :
    ∃ b ∈ firsts key used as, key b = key a := by
  induction as generalizing used with
  | nil => cases ha
  | cons b as ih =>
    rw [firsts_cons]
    rcases List.mem_cons.mp ha with rfl | ha
    · rw [if_neg hused]
      exact ⟨a, List.mem_cons_self, rfl⟩
    · split
      · exact ih ha hused
      · by_cases heq : key b = key a
        · exact ⟨b, List.mem_cons_self, heq⟩
        · obtain ⟨c, hc, hkey⟩ := ih ha (List.not_mem_cons_of_ne_of_not_mem (Ne.symm heq) hused)
          exact ⟨c, List.mem_cons_of_mem _ hc, hkey⟩

/-! ### How many there are -/

theorem card_insert_sdiff {k : κ} {keys used : Finset κ} (h : k ∉ used) :
    (insert k keys \ used).card = (keys \ insert k used).card + 1 := by
  rw [Finset.sdiff_insert, Finset.insert_sdiff_of_notMem _ h,
    ← Finset.card_insert_of_notMem (Finset.notMem_erase k (keys \ used))]
  congr 1
  ext x
  by_cases hx : x = k
  · simp [hx]
  · simp [hx]

theorem length_takeNew (n : Nat) (used : List κ) (as : List α) :
    (takeNew key n used as).length = min n ((as.map key).toFinset \ used.toFinset).card := by
  induction as generalizing n used with
  | nil => simp [takeNew]
  | cons a as ih =>
    rw [takeNew, List.map_cons, List.toFinset_cons]
    split
    · next hn => simp [hn]
    next hn =>
      split
      · next hused => rw [ih, Finset.insert_sdiff_of_mem _ (List.mem_toFinset.mpr hused)]
      next hused =>
        rw [List.length_cons, ih, List.toFinset_cons, card_insert_sdiff (fun h => hused (List.mem_toFinset.mp h))]
        omega

theorem countNew_le (used : List κ) (as : List α) :
    countNew key used as ≤ as.length := (takeNew_sublist _ _ _).length_le

theorem countNew_eq (used : List κ) (as : List α) :
    countNew key used as = ((as.map key).toFinset \ used.toFinset).card := by
  rw [countNew, length_takeNew, Nat.min_eq_right]
  calc ((as.map key).toFinset \ used.toFinset).card ≤ (as.map key).toFinset.card :=
    Finset.card_le_card Finset.sdiff_subset
    _ ≤ (as.map key).length := List.toFinset_card_le _
    _ = as.length := List.length_map key

theorem countNew_perm {used : List κ} {as bs : List α} (h : as.Perm bs) :
    countNew key used as = countNew key used bs := by
  rw [countNew_eq, countNew_eq, List.toFinset_eq_of_perm _ _ (h.map key)]

end SyncSwarm.Lib
