import SyncSwarm.Link.Resource
import Mathlib.Data.List.GetD

/-! The receiver's copy of a resource: under each index a part of the sender's whose number is that
    index modulo `2 ^ 32`. -/

namespace SyncSwarm.Link
open Lib List

namespace RecvState
variable {st : RecvState}

/-- The part has been received. --/
def Got (st : RecvState) (i : Nat) : Prop := st.got[i]? = some true

theorem getD_got {i : Nat} : st.got.getD i false = true ↔ st.Got i := by
  unfold Got
  rw [getD_eq_getElem?_getD]
  cases st.got[i]? <;> simp

/-! ### Storing a part -/

section store
variable {i : Nat} {data : Bytes}

theorem store_of_got (h : st.Got i) : st.store i data = st := by
  rw [store, if_pos (getD_got.mpr h)]

@[simp] theorem store_total : (st.store i data).total = st.total := by unfold store; split <;> rfl

@[simp] theorem store_whole : (st.store i data).whole = st.whole := by unfold store; split <;> rfl

@[simp] theorem store_complete : (st.store i data).complete = st.complete := by unfold store; split <;> rfl

theorem store_got (hi : i < st.total) {j : Nat} : (st.store i data).Got j ↔ st.Got j ∨ j = i := by
  by_cases h : st.Got i
  · rw [store_of_got h]
    exact ⟨.inl, fun hj => hj.elim id fun hj => hj ▸ h⟩
  · rw [store, if_neg fun hg => h (getD_got.mp hg)]
    show (st.got.set i true)[j]? = some true ↔ _
    by_cases hj : i = j
    · subst hj
      rw [getElem?_set_self (by rw [st.got_len]; exact hi)]
      simp
    · rw [getElem?_set_ne hj]
      exact ⟨.inl, fun h' => h'.elim id fun h' => absurd h'.symm hj⟩

theorem le_store_base : st.base ≤ (st.store i data).base := by
  unfold store
  split
  · exact Nat.le_refl _
  · exact le_nextGap _ _

end store

/-! ### The bitmap of an acknowledgement -/

theorem length_ackBitmapLocked_le (st : RecvState) : st.ackBitmapLocked.length ≤ maxAckBitmapBytes := by
  calc st.ackBitmapLocked.length ≤ ((List.range st.bitmapBytes).map st.bitmapByte).length :=
        (List.rdropWhile_prefix _ _).length_le
    _ = st.bitmapBytes := by simp
    _ ≤ maxAckBitmapBytes := Nat.min_le_right _ _

theorem testBit_bitmapByte (st : RecvState) (j : Nat) {k : Nat} (hk : k < 8) :
    (st.bitmapByte j).toNat.testBit k = st.got.getD (st.base + (8 * j + k)) false := by
  have hlt := Nat.ofBits_lt_two_pow fun k : Fin 8 => st.got.getD (st.base + (8 * j + k)) false
  rw [bitmapByte, UInt8.toNat_ofNat', Nat.mod_eq_of_lt hlt, Nat.testBit_ofBits_lt _ _ hk]

theorem got_of_bitSet {i : Nat} (h : ResourceSender.bitSet st.ackBitmapLocked i = true) : st.Got (st.base + i) := by
  unfold ResourceSender.bitSet at h
  have hlt : i / 8 < st.ackBitmapLocked.length := by
    by_contra hge
    rw [getD_eq_default _ _ (Nat.not_lt.mp hge)] at h
    simp at h
  have hbyte : st.ackBitmapLocked.getD (i / 8) 0 = st.bitmapByte (i / 8) := by
    have hat := (List.rdropWhile_prefix (· == 0) ((List.range st.bitmapBytes).map st.bitmapByte)).getElem hlt
    rw [getElem_map, getElem_range] at hat
    rw [getD_eq_getElem _ _ hlt]
    exact hat
  rw [hbyte, testBit_bitmapByte _ _ (Nat.mod_lt _ (by decide)), Nat.div_add_mod, getD_got] at h
  exact h

end RecvState

/-! ### Copies -/

/-- The number of parts that the advertisement states: the `uint32` of the number of parts. --/
def ResourceSender.statedTotal (s : ResourceSender) : Nat := s.parts.length % 4294967296

/-- What the receiver holds is of the sender's parts. --/
structure Copies (s : ResourceSender) (st : RecvState) : Prop where
  total : st.total = s.statedTotal
  whole : st.whole = s.whole
  incomplete : st.complete = false
  count : st.count = st.got.count true
  below : ∀ i < st.base, st.Got i
  gap : ¬st.Got st.base
  base_le : st.base ≤ st.total
  held : ∀ i, st.Got i → ∃ j < s.parts.length, j % 4294967296 = i ∧ st.parts[i]? = s.parts[j]?

namespace Copies
variable {s : ResourceSender} {st : RecvState}

theorem new (s : ResourceSender) : Copies s (RecvState.new s.statedTotal s.whole) where
  total := rfl
  whole := rfl
  incomplete := rfl
  count := by simp [RecvState.new, count_replicate]
  below i hi := absurd hi (Nat.not_lt_zero i)
  gap := by simp [RecvState.new, RecvState.Got, getElem?_replicate]
  base_le := Nat.zero_le _
  held i hi := by simp [RecvState.new, RecvState.Got, getElem?_replicate] at hi

theorem store (h : Copies s st) {j : Nat} (hj : j < s.parts.length) (hlt : j % 4294967296 < st.total) :
    Copies s (st.store (j % 4294967296) (s.parts.getD j [])) := by
  by_cases hg : st.Got (j % 4294967296)
  · rwa [RecvState.store_of_got hg]
  have hstore : st.store (j % 4294967296) (s.parts.getD j []) = _ :=
    if_neg fun hgot => hg (RecvState.getD_got.mp hgot)
  have hbase : ∀ i, st.base ≤ i → i < (st.store (j % 4294967296) (s.parts.getD j [])).base →
      (st.store (j % 4294967296) (s.parts.getD j [])).Got i := by
    intro i hle hi
    rw [hstore] at hi ⊢
    exact flag_of_lt_nextGap hle hi
  refine ⟨?_, ?_, ?_, ?_, ?_, ?_, ?_, ?_⟩
  · rw [RecvState.store_total, h.total]
  · rw [RecvState.store_whole, h.whole]
  · rw [RecvState.store_complete, h.incomplete]
  · have hlen : j % 4294967296 < st.got.length := by rwa [st.got_len]
    have hfalse : st.got[j % 4294967296] = false := by
      by_contra hne
      exact hg (List.getElem?_eq_some_iff.mpr ⟨hlen, by simpa using hne⟩)
    rw [hstore]
    show st.count + 1 = (st.got.set (j % 4294967296) true).count true
    rw [count_set hlen, hfalse, h.count]
    simp
  · intro i hi
    by_cases hib : i < st.base
    · exact (RecvState.store_got hlt).mpr (.inl (h.below i hib))
    · exact hbase i (Nat.not_lt.mp hib) hi
  · rw [hstore]
    exact flag_nextGap_ne _ _
  · rw [hstore]
    have hbase_le : st.base ≤ (st.got.set (j % 4294967296) true).length := by
      rw [length_set, st.got_len]
      exact h.base_le
    have hgap_le := nextGap_le hbase_le
    rwa [length_set, st.got_len] at hgap_le
  · intro i hi
    rcases (RecvState.store_got hlt).mp hi with hi | rfl
    · obtain ⟨k, hk, hmod, hpart⟩ := h.held i hi
      refine ⟨k, hk, hmod, ?_⟩
      have hne : j % 4294967296 ≠ i := fun he => hg (he ▸ hi)
      rw [hstore]
      show (st.parts.set (j % 4294967296) _)[i]? = _
      rw [getElem?_set_ne hne, hpart]
    · refine ⟨j, hj, rfl, ?_⟩
      rw [hstore]
      show (st.parts.set (j % 4294967296) _)[j % 4294967296]? = _
      rw [getElem?_set_self (by rw [st.parts_len]; exact hlt), getElem?_eq_getElem hj,
        getD_eq_getElem _ _ hj]

theorem count_of_got (h : Copies s st) (hall : ∀ i < st.total, st.Got i) : st.count = st.total := by
  rw [h.count, ← st.got_len, count_eq_length]
  intro b hmem
  obtain ⟨i, hi, rfl⟩ := getElem_of_mem hmem
  have hgot := hall i (by rw [← st.got_len]; exact hi)
  rw [RecvState.Got, getElem?_eq_getElem hi] at hgot
  exact (Option.some.inj hgot).symm

theorem count_of_base (h : Copies s st) (hb : st.base = st.total) : st.count = st.total :=
  h.count_of_got fun i hi => h.below i (hb ▸ hi)

theorem got_of_count (h : Copies s st) (hc : st.count = st.total) {i : Nat} (hi : i < st.total) : st.Got i := by
  rw [h.count, ← st.got_len, count_eq_length] at hc
  rw [← st.got_len] at hi
  exact List.getElem?_eq_some_iff.mpr ⟨hi, (hc _ (getElem_mem hi)).symm⟩

theorem part_of_got (h : Copies s st) (hn : s.parts.length < 4294967296) {i : Nat} (hi : st.Got i) :
    st.parts[i]? = s.parts[i]? := by
  obtain ⟨j, hj, hmod, hpart⟩ := h.held i hi
  rw [Nat.mod_eq_of_lt (hj.trans hn)] at hmod
  rwa [← hmod] at hpart ⊢

theorem assemble (h : Copies s st) (hn : s.parts.length < 4294967296) (hc : st.count = st.total) :
    st.assembleLocked = s.parts.flatten := by
  have htotal : st.total = s.parts.length := by rw [h.total, ResourceSender.statedTotal, Nat.mod_eq_of_lt hn]
  have hparts : st.parts = s.parts := by
    apply ext_getElem?
    intro i
    by_cases hi : i < st.total
    · exact h.part_of_got hn (h.got_of_count hc hi)
    · rw [getElem?_eq_none (by rw [st.parts_len]; omega), getElem?_eq_none (by omega)]
  rw [RecvState.assembleLocked, hparts]

end Copies
end SyncSwarm.Link
