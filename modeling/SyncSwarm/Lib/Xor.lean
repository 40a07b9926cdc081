import Mathlib.Algebra.Group.Nat.Defs
import SyncSwarm.Lib.Bytes

/-! Byte strings as big-endian numbers, and `xor` on them. -/

namespace SyncSwarm.Lib

/-! ### Numbers -/

theorem weight_eq (k : Nat) : weight k = 2 ^ (8 * k) := by
  induction k with
  | zero => rfl
  | succ k ih => rw [weight, ih, Nat.mul_add 8 k 1, Nat.pow_add]

theorem xor_add_weight {k x y u v : Nat} (hu : u < weight k) (hv : v < weight k) :
    (x * weight k + u) ^^^ (y * weight k + v) = (x ^^^ y) * weight k + (u ^^^ v) := by
  rw [weight_eq] at hu hv ⊢
  have huv : u ^^^ v < 2 ^ (8 * k) := Nat.xor_lt_two_pow hu hv
  rw [Nat.mul_comm x, Nat.mul_comm y, Nat.mul_comm (x ^^^ y)]
  apply Nat.eq_of_testBit_eq
  intro j
  rw [Nat.testBit_xor, Nat.testBit_two_pow_mul_add _ hu, Nat.testBit_two_pow_mul_add _ hv,
    Nat.testBit_two_pow_mul_add _ huv]
  split <;> rw [Nat.testBit_xor]

theorem log2_add_weight {k x u : Nat} (hx : x ≠ 0) (hu : u < weight k) : (x * weight k + u).log2 = k * 8 + x.log2 := by
  rw [weight_eq] at hu ⊢
  obtain ⟨hlow, hhigh⟩ := (Nat.log2_eq_iff hx).mp rfl
  have hpos : 0 < 2 ^ (8 * k) := Nat.two_pow_pos _
  have hne : x * 2 ^ (8 * k) + u ≠ 0 := by
    have hmul : 0 < x * 2 ^ (8 * k) := Nat.mul_pos (Nat.pos_of_ne_zero hx) hpos
    omega
  refine (Nat.log2_eq_iff hne).mpr ⟨?_, ?_⟩
  · calc 2 ^ (k * 8 + x.log2) = 2 ^ x.log2 * 2 ^ (8 * k) := by rw [Nat.mul_comm k, Nat.add_comm, Nat.pow_add]
      _ ≤ x * 2 ^ (8 * k) := Nat.mul_le_mul_right _ hlow
      _ ≤ x * 2 ^ (8 * k) + u := Nat.le_add_right _ _
  · calc x * 2 ^ (8 * k) + u < x * 2 ^ (8 * k) + 2 ^ (8 * k) := Nat.add_lt_add_left hu _
      _ = (x + 1) * 2 ^ (8 * k) := (Nat.succ_mul _ _).symm
      _ ≤ 2 ^ (x.log2 + 1) * 2 ^ (8 * k) := Nat.mul_le_mul_right _ hhigh
      _ = 2 ^ (k * 8 + x.log2 + 1) := by rw [← Nat.pow_add, Nat.mul_comm k]; congr 1; omega

theorem log2_xor_lt {x y : Nat} (hx : x ≠ 0) (hy : y ≠ 0) (htop : x.log2 = y.log2) (hne : x ^^^ y ≠ 0) :
    (x ^^^ y).log2 < x.log2 := by
  refine (Nat.log2_lt hne).mpr (Nat.lt_pow_two_of_testBit _ fun j hj => ?_)
  rw [Nat.testBit_xor]
  rcases Nat.eq_or_lt_of_le hj with rfl | hlt
  · have hbit : y.testBit x.log2 = true := by rw [htop]; exact Nat.testBit_log2 hy
    rw [Nat.testBit_log2 hx, hbit]
    rfl
  · have hxj : x < 2 ^ j := (Nat.log2_lt hx).mp hlt
    have hyj : y < 2 ^ j := (Nat.log2_lt hy).mp (htop ▸ hlt)
    rw [Nat.testBit_lt_two_pow hxj, Nat.testBit_lt_two_pow hyj]
    rfl

theorem log2_le_log2 {x y : Nat} (hx : x ≠ 0) (h : x ≤ y) : x.log2 ≤ y.log2 :=
  (Nat.le_log2 (by omega)).mpr (Nat.le_trans ((Nat.le_log2 hx).mp (Nat.le_refl _)) h)

/-! ### Byte strings -/

theorem foldl_beNat (b : Bytes) (acc : Nat) :
    b.foldl (fun acc x => acc * 256 + x.toNat) acc = acc * weight b.length + beNat b := by
  induction b generalizing acc with
  | nil => simp [beNat, weight]
  | cons x b ih =>
    rw [beNat, List.foldl_cons, List.foldl_cons, ih, ih (0 * 256 + x.toNat), List.length_cons, weight,
      Nat.zero_mul, Nat.zero_add, Nat.add_mul, Nat.mul_assoc, Nat.mul_comm 256, Nat.add_assoc]

theorem beNat_cons (x : UInt8) (b : Bytes) : beNat (x :: b) = x.toNat * weight b.length + beNat b := by
  rw [beNat, List.foldl_cons, foldl_beNat, Nat.zero_mul, Nat.zero_add]

theorem beNat_lt (b : Bytes) : beNat b < weight b.length := by
  induction b with
  | nil => exact Nat.one_pos
  | cons x b ih =>
    have hx : x.toNat < 256 := x.toNat_lt
    rw [beNat_cons, List.length_cons, weight]
    calc x.toNat * weight b.length + beNat b < x.toNat * weight b.length + weight b.length := Nat.add_lt_add_left ih _
      _ = (x.toNat + 1) * weight b.length := (Nat.succ_mul _ _).symm
      _ ≤ 256 * weight b.length := Nat.mul_le_mul_right _ hx
      _ = weight b.length * 256 := Nat.mul_comm _ _

theorem beNat_zipWith_xor {a b : Bytes} (h : a.length = b.length) :
    beNat (List.zipWith (· ^^^ ·) a b) = beNat a ^^^ beNat b := by
  induction a generalizing b with
  | nil =>
    cases b with
    | nil => rfl
    | cons y b => cases h
  | cons x a ih =>
    cases b with
    | nil => cases h
    | cons y b =>
      have hlen : a.length = b.length := Nat.succ.inj h
      have hzip : (List.zipWith (· ^^^ ·) a b).length = b.length := by rw [List.length_zipWith, hlen, Nat.min_self]
      rw [List.zipWith_cons_cons, beNat_cons, beNat_cons, beNat_cons, ih hlen, hzip, hlen, UInt8.toNat_xor,
        xor_add_weight (hlen ▸ beNat_lt a) (beNat_lt b)]

theorem beNat_injective {a b : Bytes} (hlen : a.length = b.length) (h : beNat a = beNat b) : a = b := by
  induction a generalizing b with
  | nil =>
    cases b with
    | nil => rfl
    | cons y b => cases hlen
  | cons x a ih =>
    cases b with
    | nil => cases hlen
    | cons y b =>
      have hlen : a.length = b.length := Nat.succ.inj hlen
      have ha : beNat a < weight b.length := hlen ▸ beNat_lt a
      have hb : beNat b < weight b.length := beNat_lt b
      rw [beNat_cons, beNat_cons, hlen] at h
      have hrest : beNat a = beNat b := by
        have hmod := congrArg (· % weight b.length) h
        simpa only [Nat.mul_add_mod_self_right, Nat.mod_eq_of_lt ha, Nat.mod_eq_of_lt hb] using hmod
      have hhead : x = y := by
        rw [hrest] at h
        exact UInt8.toNat_inj.mp (Nat.eq_of_mul_eq_mul_right (Nat.zero_lt_of_lt hb) (Nat.add_right_cancel h))
      rw [hhead, ih hlen hrest]

def lexLess : Bytes → Bytes → Bool
  | x :: a, y :: b => if x ≠ y then x < y else lexLess a b
  | _, _ => false

theorem lexLess_eq {a b : Bytes} (h : a.length = b.length) : lexLess a b = decide (beNat a < beNat b) := by
  induction a generalizing b with
  | nil =>
    cases b with
    | nil => rfl
    | cons y b => cases h
  | cons x a ih =>
    cases b with
    | nil => cases h
    | cons y b =>
      have hlen : a.length = b.length := Nat.succ.inj h
      have ha : beNat a < weight b.length := hlen ▸ beNat_lt a
      have hb : beNat b < weight b.length := beNat_lt b
      rw [lexLess, beNat_cons, beNat_cons, hlen]
      split
      next hne =>
        -- The head that is larger outweighs whatever follows.
        have hcarry : ∀ {u v : Nat}, u < v → u * weight b.length + weight b.length ≤ v * weight b.length :=
          fun huv => Nat.le_trans (Nat.le_of_eq (Nat.succ_mul _ _).symm) (Nat.mul_le_mul_right _ huv)
        have htoNat : x.toNat ≠ y.toNat := fun heq => hne (UInt8.toNat_inj.mp heq)
        rw [decide_eq_decide, UInt8.lt_iff_toNat_lt]
        rcases Nat.lt_or_gt_of_ne htoNat with hlt | hgt
        · have := hcarry hlt
          exact iff_of_true hlt (by omega)
        · have := hcarry hgt
          exact iff_of_false (by omega) (by omega)
      next heq =>
        have heq : x = y := not_not.mp heq
        rw [ih hlen, heq, decide_eq_decide, Nat.add_lt_add_iff_left]

def leadingZeros8 (x : UInt8) : Nat := if x = 0 then 8 else 7 - x.toNat.log2

theorem leadingZeros8_of_ne_zero {x : UInt8} (h : x ≠ 0) : 7 - leadingZeros8 x = x.toNat.log2 := by
  have hx : x.toNat ≠ 0 := fun heq => h (UInt8.toNat_inj.mp heq)
  have hlt : x.toNat.log2 < 8 := (Nat.log2_lt hx).mpr x.toNat_lt
  rw [leadingZeros8, if_neg h]
  omega

/-- The position of the most significant bit that is set, counted from the end. --/
def topBit : Bytes → Option Nat
  | [] => none
  | x :: rest => if x ≠ 0 then some (rest.length * 8 + (7 - leadingZeros8 x)) else topBit rest

theorem topBit_eq (b : Bytes) : topBit b = if beNat b = 0 then none else some (beNat b).log2 := by
  induction b with
  | nil => rfl
  | cons x b ih =>
    rw [topBit, beNat_cons]
    split
    next hne =>
      have hx : x.toNat ≠ 0 := fun h => hne (UInt8.toNat_inj.mp h)
      have hpos : 0 < weight b.length := Nat.zero_lt_of_lt (beNat_lt b)
      have hmul : 0 < x.toNat * weight b.length := Nat.mul_pos (Nat.pos_of_ne_zero hx) hpos
      rw [if_neg (by omega), leadingZeros8_of_ne_zero hne, log2_add_weight hx (beNat_lt b)]
    next heq =>
      have hx : x = 0 := not_not.mp heq
      rw [ih, hx, UInt8.toNat_zero, Nat.zero_mul, Nat.zero_add]

end SyncSwarm.Lib
