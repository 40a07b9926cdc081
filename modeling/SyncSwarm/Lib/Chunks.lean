import Mathlib.Data.List.Basic

/-! Cutting a list into consecutive pieces of a given length, the last of which may be short. The
    pieces in order give the list back. -/

namespace SyncSwarm.Lib

variable {α : Type}

def chunkCount (n len : Nat) : Nat := (len + n - 1) / n

def chunks (n : Nat) (l : List α) : List (List α) :=
  (List.range (chunkCount n l.length)).map fun i => (l.drop (i * n)).take n

@[simp] theorem length_chunks (n : Nat) (l : List α) : (chunks n l).length = chunkCount n l.length := by
  simp [chunks]

theorem chunkCount_le_iff {n len k : Nat} (hn : 0 < n) : chunkCount n len ≤ k ↔ len ≤ k * n := by
  unfold chunkCount
  rw [Nat.div_le_iff_le_mul_add_pred hn, Nat.mul_comm]
  omega

theorem lt_chunkCount_iff {n len k : Nat} (hn : 0 < n) : k < chunkCount n len ↔ k * n < len := by
  rw [← Nat.not_le, ← Nat.not_le, chunkCount_le_iff hn]

theorem chunkCount_pos {n len : Nat} (hn : 0 < n) (hlen : 0 < len) : 0 < chunkCount n len :=
  (lt_chunkCount_iff hn).mpr (by simpa using hlen)

@[simp] theorem chunkCount_zero (n : Nat) : chunkCount n 0 = 0 := by
  rcases Nat.eq_zero_or_pos n with rfl | hn
  · rfl
  · exact Nat.le_zero.mp ((chunkCount_le_iff hn).mpr (Nat.zero_le _))

theorem chunkCount_one (len : Nat) : chunkCount 1 len = len := by simp [chunkCount]

theorem getElem?_chunks {n : Nat} {l : List α} {i : Nat} (hi : i < chunkCount n l.length) :
    (chunks n l)[i]? = some ((l.drop (i * n)).take n) := by
  simp [chunks, List.getElem?_map, List.getElem?_range hi]

theorem mem_chunks {n : Nat} {l c : List α} (h : c ∈ chunks n l) :
    ∃ i < chunkCount n l.length, c = (l.drop (i * n)).take n := by
  obtain ⟨i, hi, rfl⟩ := List.mem_map.mp h
  exact ⟨i, List.mem_range.mp hi, rfl⟩

theorem length_le_of_mem_chunks {n : Nat} {l c : List α} (h : c ∈ chunks n l) : c.length ≤ n := by
  obtain ⟨i, -, rfl⟩ := mem_chunks h
  exact List.length_take_le n _

theorem length_of_getElem?_chunks {n : Nat} {l c : List α} {i : Nat} (hn : 0 < n) (hi : i + 1 < chunkCount n l.length)
    (h : (chunks n l)[i]? = some c) : c.length = n := by
  rw [getElem?_chunks (by omega)] at h
  cases h
  have hlt := (lt_chunkCount_iff hn).mp hi
  rw [Nat.succ_mul] at hlt
  rw [List.length_take, List.length_drop]
  omega

theorem flatten_pieces (n : Nat) (l : List α) (k : Nat) :
    ((List.range k).map fun i => (l.drop (i * n)).take n).flatten = l.take (k * n) := by
  induction k with
  | zero => simp
  | succ k ih =>
    rw [List.range_succ, List.map_append, List.flatten_append, ih, Nat.succ_mul, List.take_add]
    simp

theorem flatten_chunks {n : Nat} (hn : 0 < n) (l : List α) : (chunks n l).flatten = l := by
  unfold chunks
  rw [flatten_pieces]
  exact List.take_of_length_le ((chunkCount_le_iff hn).mp (Nat.le_refl _))

theorem length_flatten_le {ls : List (List α)} {n : Nat} (h : ∀ l ∈ ls, l.length ≤ n) :
    ls.flatten.length ≤ ls.length * n := by
  induction ls with
  | nil => exact Nat.zero_le _
  | cons l ls ih =>
    have hl := h l List.mem_cons_self
    have hls := ih fun l' hl' => h l' (List.mem_cons_of_mem l hl')
    rw [List.flatten_cons, List.length_append, List.length_cons, Nat.succ_mul]
    omega

theorem chunks_of_length_le {n : Nat} {l : List α} (hl : l ≠ []) (h : l.length ≤ n) : chunks n l = [l] := by
  have hpos : 0 < l.length := List.length_pos_iff.mpr hl
  have hn : 0 < n := Nat.lt_of_lt_of_le hpos h
  have hone : chunkCount n l.length = 1 :=
    Nat.le_antisymm ((chunkCount_le_iff hn).mpr (by rwa [Nat.one_mul])) (chunkCount_pos hn hpos)
  obtain ⟨c, hc⟩ := List.length_eq_one_iff.mp ((length_chunks n l).trans hone)
  have hflat := flatten_chunks hn l
  rw [hc, List.flatten_singleton] at hflat
  rw [hc, hflat]

theorem chunks_nil (n : Nat) : chunks n ([] : List α) = [] := by simp [chunks]

end SyncSwarm.Lib
