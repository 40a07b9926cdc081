import SyncSwarm.Lib.Bytes
import Mathlib.Data.List.Basic

/-! How `encoding/json` writes an object, a slice of bytes and an array of bytes. -/

namespace SyncSwarm.Lib.Json
open List

def ascii (s : String) : Bytes := s.toList.map fun c => UInt8.ofNat c.toNat

/-- The standard alphabet of base64. --/
def digit (n : Nat) : UInt8 :=
  (ascii "ABCDEFGHIJKLMNOPQRSTUVWXYZabcdefghijklmnopqrstuvwxyz0123456789+/").getD (n % 64) 0

def padding : UInt8 := 61

/-- Three bytes are four digits; what is left at the end is padded. --/
def base64 : Bytes → Bytes
  | [] => []
  | [a] => [digit (a.toNat / 4), digit (a.toNat * 16), padding, padding]
  | [a, b] => [digit (a.toNat / 4), digit (a.toNat * 16 + b.toNat / 16), digit (b.toNat * 4), padding]
  | a :: b :: c :: rest =>
    [digit (a.toNat / 4), digit (a.toNat * 16 + b.toNat / 16), digit (b.toNat * 4 + c.toNat / 64),
      digit c.toNat] ++ base64 rest

def quoted (text : Bytes) : Bytes := ascii "\"" ++ text ++ ascii "\""

def slice (b : Bytes) : Bytes := quoted (base64 b)

def number (b : UInt8) : Bytes := ascii (toString b.toNat)

def separated : List Bytes → Bytes
  | [] => []
  | [item] => item
  | item :: next :: rest => item ++ ascii "," ++ separated (next :: rest)

def array (b : Bytes) : Bytes := ascii "[" ++ separated (b.map number) ++ ascii "]"

def object (fields : List (String × Bytes)) : Bytes :=
  ascii "\x7b" ++ separated (fields.map fun field => quoted (ascii field.1) ++ ascii ":" ++ field.2) ++ ascii "\x7d"

/-! ### Lengths -/

@[simp] theorem length_ascii (s : String) : (ascii s).length = s.toList.length := length_map _

theorem length_base64 (b : Bytes) : (base64 b).length = (b.length + 2) / 3 * 4 := by
  induction b using base64.induct with
  | case1 => rfl
  | case2 a => simp [base64]
  | case3 a b => simp [base64]
  | case4 a b c rest ih =>
    rw [base64, length_append, ih]
    simp only [length_cons, length_nil]
    omega

theorem length_slice (b : Bytes) : (slice b).length = 2 + (b.length + 2) / 3 * 4 := by
  rw [slice, quoted, length_append, length_append, length_base64]
  simp only [length_ascii]
  show 1 + _ + 1 = _
  omega

theorem length_number_le (b : UInt8) : (number b).length ≤ 3 := by
  have hall : ∀ n < 256, (ascii (toString n)).length ≤ 3 := by decide +kernel
  exact hall b.toNat b.toNat_lt

theorem length_separated_le (items : List Bytes) (n : Nat) (h : ∀ item ∈ items, item.length ≤ n) :
    (separated items).length ≤ items.length * (n + 1) - 1 := by
  induction items using separated.induct with
  | case1 => exact Nat.zero_le _
  | case2 item =>
    have := h item mem_cons_self
    simpa [separated] using this
  | case3 item next rest ih =>
    have hfirst := h item mem_cons_self
    have hrest := ih fun y hy => h y (mem_cons_of_mem item hy)
    rw [separated, length_append, length_append, length_ascii]
    simp only [length_cons, Nat.succ_mul] at hrest ⊢
    show _ + 1 + _ ≤ _
    omega

theorem length_array_le (b : Bytes) : (array b).length ≤ 2 + (b.length * 4 - 1) := by
  have hle := length_separated_le (b.map number) 3 fun item hitem => by
    obtain ⟨x, -, rfl⟩ := mem_map.mp hitem
    exact length_number_le x
  rw [length_map] at hle
  rw [array, length_append, length_append, length_ascii, length_ascii]
  show 1 + _ + 1 ≤ _
  omega

end SyncSwarm.Lib.Json
