import SyncSwarm.Transfer.Pieces

/-! The array behind a payload. Only the package `reedsolomon` writes into it: `Split` takes the spare capacity of its
    argument for shards, and `Encode` fills the parity shards among them. -/

namespace SyncSwarm.Transfer
open Lib Protocol Fragment

structure Slice (size : Nat) where
  off : Nat
  len : Nat
  cap : Nat
  len_le : len ≤ cap
  inside : off + cap ≤ size

def write (array : Bytes) (off : Nat) (data : Bytes) : Bytes := array.take off ++ data ++ array.drop (off + data.length)

namespace Slice
variable {size : Nat} (s : Slice size)

def read (array : Bytes) : Bytes := (array.drop s.off).take s.len

/-- The size of a shard. With more than 256 of them the package codes words of 64 bytes. --/
def perShard (d p : Nat) : Nat :=
  let size := (s.len + d - 1) / d
  if d + p ≤ 256 then size else (size + 63) / 64 * 64

/-- How far the slice reaches when `Split` has extended it. --/
def extended (d p : Nat) : Nat := if s.len < s.cap then min s.cap ((d + p) * s.perShard d p) else s.len

end Slice

def fragmentIn {size : Nat} (f : RSFragmenter) (rs : ReedSolomon) (draw : Nat) (id : TransferID) (s : Slice size)
    (array : Bytes) :
    Bytes × Except String (List Fragment × Nat) :=
  let d := f.dataShards.toNat
  let p := f.parityShards.toNat
  if s.len < f.dataShards then (array, .error errShortData)
  else
    match rs.new d p with
    | .error e => (array, .error ("fragment: new rs encoder: " ++ e))
    | .ok () =>
      match rs.split d p (s.read array) with
      | .error e => (array, .error ("fragment: rs split: " ++ e))
      | .ok parts =>
        let array := write array (s.off + s.len) (List.replicate (s.extended d p - s.len) 0)
        match rs.encode d p parts with
        | .error e => (array, .error ("fragment: rs encode: " ++ e))
        | .ok shards =>
          -- The first shards are parts of the array, as many as it has room for.
          let array :=
            write array (s.off + d * s.perShard d p) ((shards.take (s.extended d p / s.perShard d p)).drop d).flatten
          (array, (sealParts f.sealer draw id "shard" (UInt32.ofNat shards.length) 0 shards).map
            fun frags => (frags, s.len))

def Config.buildFragmentsIn {size : Nat} (t : Config) (rs : ReedSolomon) (id : TransferID) (s : Slice size)
    (isVariable : Bool)
    (sealer : Option Sealer) (array : Bytes) : Bytes × Except String (List Fragment × Scheme) :=
  let sc : Scheme := { isVariable }
  let sequential (array : Bytes) := (t.buildChunks id (s.read array) sealer).map fun frags => (frags, sc)
  if sealer.isSome ∧ 0 < t.dataShards ∧ 0 < t.parityShards ∧ t.dataShards ≤ s.len then
    match newRSFragmenter sealer t.dataShards t.parityShards with
    | .error _ => (array, sequential array)
    | .ok f =>
      match fragmentIn f rs 0 id s array with
      | (array, .error _) => (array, sequential array)
      | (array, .ok (frags, origLen)) => (array, .ok (frags, { sc with
          dataShards := UInt32.ofNat t.dataShards.toNat
          parityShards := UInt32.ofNat t.parityShards.toNat
          originalLen := UInt64.ofNat origLen }))
  else (array, sequential array)

structure BufferedSend (size : Nat) where
  cfg : Config
  id : TransferID
  slice : Slice size
  isVariable : Bool
  sealer : Option Sealer

def buildAll {size : Nat} (rs : ReedSolomon) :
    Bytes → List (BufferedSend size) → Bytes × List (Except String (List Fragment × Scheme))
  | array, [] => (array, [])
  | array, x :: xs =>
    let (array, built) := x.cfg.buildFragmentsIn rs x.id x.slice x.isVariable x.sealer array
    let (array, rest) := buildAll rs array xs
    (array, built :: rest)

end SyncSwarm.Transfer
