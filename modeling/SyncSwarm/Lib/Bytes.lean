import Mathlib.Data.List.Basic

/-! Byte strings: arrays of a fixed length, and numbers in big-endian order. -/

namespace SyncSwarm

abbrev Bytes := List UInt8

namespace Lib

def FixedBytes (n : Nat) := { b : Bytes // b.length = n }

instance (n : Nat) : DecidableEq (FixedBytes n) := inferInstanceAs (DecidableEq { b : Bytes // b.length = n })

namespace FixedBytes
variable {n : Nat}

def copy (n : Nat) (b : Bytes) : FixedBytes n := ⟨(b ++ List.replicate n 0).take n, by simp⟩

def replicate (n : Nat) (b : UInt8) : FixedBytes n := ⟨List.replicate n b, List.length_replicate⟩

instance : Inhabited (FixedBytes n) := ⟨copy n []⟩

@[simp] theorem length_val (a : FixedBytes n) : a.val.length = n := a.property

theorem copy_append (a : FixedBytes n) (rest : Bytes) : copy n (a.val ++ rest) = a := by
  apply Subtype.ext
  show ((a.val ++ rest) ++ List.replicate n 0).take n = a.val
  rw [List.append_assoc, List.take_append_of_le_length (by simp), List.take_of_length_le (by simp)]

end FixedBytes

/-! ### Big-endian numbers -/

def weight : Nat → Nat
  | 0 => 1
  | k + 1 => weight k * 256

def beBytes : Nat → Nat → Bytes
  | 0, _ => []
  | k + 1, v => UInt8.ofNat (v / weight k) :: beBytes k v

def beNat (b : Bytes) : Nat := b.foldl (fun acc x => acc * 256 + x.toNat) 0

@[simp] theorem length_beBytes (k v : Nat) : (beBytes k v).length = k := by
  induction k with
  | zero => rfl
  | succ k ih => simp [beBytes, ih]

theorem foldl_beBytes (k v acc : Nat) :
    (beBytes k v).foldl (fun acc x => acc * 256 + x.toNat) acc = acc * weight k + v % weight k := by
  induction k generalizing acc with
  | zero => simp [beBytes, weight, Nat.mod_one]
  | succ k ih =>
    -- The first byte is the digit of weight `weight k`, and the others spell `v % weight k`.
    have digit : v % weight (k + 1) = v / weight k % 256 * weight k + v % weight k := by
      rw [weight, Nat.mod_mul, Nat.add_comm, Nat.mul_comm]
    have byte : (UInt8.ofNat (v / weight k)).toNat = v / weight k % 256 := UInt8.toNat_ofNat'
    rw [beBytes, List.foldl_cons, ih, byte, digit, Nat.add_mul, Nat.mul_assoc, Nat.add_assoc, weight,
      Nat.mul_comm 256]

theorem beNat_beBytes (k v : Nat) : beNat (beBytes k v) = v % weight k := by
  simp [beNat, foldl_beBytes]

theorem beNat_take_beBytes (k v : Nat) (rest : Bytes) : beNat ((beBytes k v ++ rest).take k) = v % weight k := by
  rw [List.take_append_of_le_length (by simp), List.take_of_length_le (by simp), beNat_beBytes]

def be16 (v : UInt16) : Bytes := beBytes 2 v.toNat

def be32 (v : UInt32) : Bytes := beBytes 4 v.toNat

def u32 (b : Bytes) : UInt32 := UInt32.ofNat (beNat (b.take 4))

def be64 (v : UInt64) : Bytes := beBytes 8 v.toNat

@[simp] theorem length_be16 (v : UInt16) : (be16 v).length = 2 := length_beBytes 2 _

@[simp] theorem length_be32 (v : UInt32) : (be32 v).length = 4 := length_beBytes 4 _

@[simp] theorem length_be64 (v : UInt64) : (be64 v).length = 8 := length_beBytes 8 _

theorem u32_be32 (v : UInt32) (rest : Bytes) : u32 (be32 v ++ rest) = v := by
  have hlt : v.toNat < weight 4 := v.toNat_lt
  rw [u32, be32, beNat_take_beBytes, Nat.mod_eq_of_lt hlt]
  exact UInt32.ofNat_toNat

theorem beNat_be64 (v : UInt64) : UInt64.ofNat (beNat (be64 v)) = v := by
  have hlt : v.toNat < weight 8 := v.toNat_lt
  rw [be64, beNat_beBytes, Nat.mod_eq_of_lt hlt, UInt64.ofNat_toNat]

end Lib
end SyncSwarm
