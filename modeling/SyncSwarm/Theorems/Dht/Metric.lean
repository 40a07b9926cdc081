import SyncSwarm.Dht.Table

/-! The XOR metric: the distance as a number, what `closer` and `bucketIndex` say about it, and the prefix
    that two IDs share. -/

namespace SyncSwarm.Dht
open Lib

namespace ID

/-- The XOR distance, as a number. --/
def distance (target id : ID) : Nat := beNat (xor id target).val

theorem distance_eq (target id : ID) : distance target id = beNat id.val ^^^ beNat target.val :=
  beNat_zipWith_xor (by rw [id.property, target.property])

theorem distance_injective {target a b : ID} (h : distance target a = distance target b) : a = b := by
  rw [distance_eq, distance_eq] at h
  have hnum : beNat a.val = beNat b.val := by
    have hback := congrArg (· ^^^ beNat target.val) h
    simpa only [Nat.xor_assoc, Nat.xor_self, Nat.xor_zero] using hback
  exact Subtype.ext (beNat_injective (by rw [a.property, b.property]) hnum)

theorem distance_eq_zero {target id : ID} : distance target id = 0 ↔ id = target := by
  constructor
  · intro h
    apply distance_injective (h.trans _)
    rw [distance_eq, Nat.xor_self]
  · rintro rfl
    rw [distance_eq, Nat.xor_self]

theorem closer_eq (target a b : ID) : closer target a b = decide (distance target a < distance target b) :=
  lexLess_eq (by rw [(xor a target).property, (xor b target).property])

theorem bucketIndex_eq (a b : ID) : bucketIndex a b = if distance b a = 0 then none else some (distance b a).log2 :=
  topBit_eq _

variable {a b : ID} {i : Nat}

theorem bucketIndex_eq_none : bucketIndex a b = none ↔ a = b := by
  rw [bucketIndex_eq, ← distance_eq_zero]
  split <;> simp [*]

theorem bucketIndex_eq_some : bucketIndex a b = some i ↔ distance b a ≠ 0 ∧ (distance b a).log2 = i := by
  rw [bucketIndex_eq]
  split <;> simp [*]

theorem bucketIndex_lt (h : bucketIndex a b = some i) : i < idBits := by
  obtain ⟨hne, rfl⟩ := bucketIndex_eq_some.mp h
  refine (Nat.log2_lt hne).mpr ?_
  have hlt := beNat_lt (xor a b).val
  rwa [(xor a b).property, weight_eq] at hlt

/-! ### Common prefixes -/

/-- The number of leading bits in which two IDs agree. --/
def commonPrefix (a b : ID) : Nat :=
  match bucketIndex a b with
  | none => idBits
  | some i => idBits - 1 - i

theorem commonPrefix_self (a : ID) : commonPrefix a a = idBits := by
  rw [commonPrefix, bucketIndex_eq_none.mpr rfl]

theorem commonPrefix_of_bucketIndex (h : bucketIndex a b = some i) : commonPrefix a b = idBits - 1 - i := by
  rw [commonPrefix, h]

theorem commonPrefix_lt_of_ne (h : a ≠ b) : commonPrefix a b < idBits := by
  cases hbi : bucketIndex a b with
  | none => exact absurd (bucketIndex_eq_none.mp hbi) h
  | some i =>
    have hlt := bucketIndex_lt hbi
    rw [commonPrefix_of_bucketIndex hbi]
    omega

theorem commonPrefix_le {target a b : ID} (h : distance target a ≤ distance target b) :
    commonPrefix b target ≤ commonPrefix a target := by
  cases ha : bucketIndex a target with
  | none =>
    have heq := bucketIndex_eq_none.mp ha
    rw [heq, commonPrefix_self]
    by_cases hb : b = target
    · rw [hb, commonPrefix_self]
    · exact (commonPrefix_lt_of_ne hb).le
  | some i =>
    obtain ⟨hne, hi⟩ := bucketIndex_eq_some.mp ha
    have hb : bucketIndex b target = some (distance target b).log2 := bucketIndex_eq_some.mpr ⟨by omega, rfl⟩
    have hlog := log2_le_log2 hne h
    rw [commonPrefix_of_bucketIndex ha, commonPrefix_of_bucketIndex hb]
    omega

theorem commonPrefix_lt {a b target : ID} (hb : bucketIndex a b = some i) (ht : bucketIndex a target = some i) :
    commonPrefix a target < commonPrefix b target := by
  have hlt := bucketIndex_lt ht
  rw [commonPrefix_of_bucketIndex ht]
  by_cases heq : b = target
  · rw [heq, commonPrefix_self]
    omega
  · obtain ⟨hbne, hbi⟩ := bucketIndex_eq_some.mp hb
    obtain ⟨htne, hti⟩ := bucketIndex_eq_some.mp ht
    have hxor : distance b a ^^^ distance target a = distance target b := by
      rw [distance_eq, distance_eq, distance_eq, Nat.xor_comm (beNat a.val) (beNat b.val), Nat.xor_assoc,
        ← Nat.xor_assoc (beNat a.val), Nat.xor_self, Nat.zero_xor]
    have hne : distance target b ≠ 0 := fun h => heq (distance_eq_zero.mp h)
    have hlog : (distance target b).log2 < i := by
      have h := log2_xor_lt hbne htne (hbi.trans hti.symm) (hxor ▸ hne)
      rwa [hxor, hbi] at h
    rw [commonPrefix_of_bucketIndex (bucketIndex_eq_some.mpr ⟨hne, rfl⟩)]
    omega

end ID
end SyncSwarm.Dht
