import SyncSwarm.Lib.Chunks
import SyncSwarm.Lib.Map
import SyncSwarm.Protocol.Packet

/-! Fragments of a transfer: plain chunks, chunks sealed one by one, and the sealed shards of a Reed-Solomon code. -/

set_option linter.dupNamespace false

namespace SyncSwarm.Fragment
open Lib Protocol

/-- How a call ends that does not return a value: with an error, or by bringing the process down. --/
inductive Failure where
  | error (text : String)
  | panic (text : String)
  deriving DecidableEq

/-- An error with the text of its caller before it, as `fmt.Errorf` wraps it. A panic goes by the caller. --/
def Failure.wrap (caller : String) : Failure → Failure
  | error text => .error (caller ++ text)
  | panic text => .panic text

/-- `encryption.Sealer`. Sealing draws random bytes: its first argument says which call it is. --/
structure Sealer where
  sealBytes : Nat → Bytes → Bytes → Except String Bytes
  openBytes : Bytes → Bytes → Except String Bytes

structure Fragment where
  transferID : TransferID
  index : UInt32
  total : UInt32
  payload : Bytes
  subIndex : UInt32 := 0
  subTotal : UInt32 := 0
  streaming : Bool := false
  blockIndex : UInt32 := 0
  blockLen : UInt32 := 0
  final : Bool := false
  deriving DecidableEq

def errNilSealer : String := "fragment: sealer must not be nil"
def errChunkSize : String := "fragment: chunk size must be positive"
def errIndexRange : String := "fragment: index out of range"
def errTotalMismatch : String := "fragment: total mismatch"
def errIncomplete : String := "fragment: transfer incomplete"
def errShardCount : String := "fragment: dataShards and parityShards must be > 0"
def errShortData : String := "fragment: data too short for the shard count"
def errTooFewShards : String := "fragment: too few shards to reconstruct"

def split (data : Bytes) (chunkSize : Int) : List Bytes :=
  if chunkSize ≤ 0 ∨ data.length = 0 then [] else chunks chunkSize.toNat data

def join (cs : List Bytes) : Bytes := cs.flatten

def aad (transferID : TransferID) (index total : UInt32) : Bytes := transferID.val ++ be32 index ++ be32 total

/-- The loop of both fragmenters from place `i` on; `what` is a chunk or a shard. `draw` calls of the
    sealer came before the loop. --/
def sealParts (sealer : Sealer) (draw : Nat) (transferID : TransferID) (what : String) (total : UInt32) :
    Nat → List Bytes → Except String (List Fragment)
  | _, [] => .ok []
  | i, part :: parts =>
    match sealer.sealBytes (draw + i) part (aad transferID (UInt32.ofNat i) total) with
    | .error e => .error ("fragment: sealing " ++ what ++ " " ++ toString (UInt32.ofNat i) ++ ": " ++ e)
    | .ok sealed => (sealParts sealer draw transferID what total (i + 1) parts).map fun frags =>
        { transferID, index := UInt32.ofNat i, total, payload := sealed } :: frags

/-! ### Sealed chunks -/

structure Fragmenter where
  sealer : Sealer
  chunkSize : Int
  chunkSize_pos : 0 < chunkSize

def newFragmenter (sealer : Option Sealer) (chunkSize : Int) : Except String Fragmenter :=
  match sealer with
  | none => .error errNilSealer
  | some sealer => if h : 0 < chunkSize then .ok ⟨sealer, chunkSize, h⟩ else .error errChunkSize

def Fragmenter.fragment (f : Fragmenter) (draw : Nat) (transferID : TransferID) (data : Bytes) :
    Except String (List Fragment) :=
  let cs := split data f.chunkSize
  sealParts f.sealer draw transferID "chunk" (UInt32.ofNat cs.length) 0 cs

structure Reassembler where
  sealer : Sealer
  total : UInt32
  parts : GoMap UInt32 Bytes

def newReassembler (sealer : Sealer) (total : UInt32) : Reassembler := ⟨sealer, total, ∅⟩

/-- The checks of both reassemblers, and the entry in their maps. --/
def addPart (total : UInt32) (parts : GoMap UInt32 Bytes) (fr : Fragment) : Except String (GoMap UInt32 Bytes) :=
  if fr.total ≠ total then .error errTotalMismatch
  else if total ≤ fr.index then .error errIndexRange
  else if (parts.get? fr.index).isSome then .ok parts
  else .ok (parts.set fr.index fr.payload)

def Reassembler.add (r : Reassembler) (fr : Fragment) : Except String Reassembler :=
  (addPart r.total r.parts fr).map fun parts => { r with parts }

def Reassembler.complete (r : Reassembler) : Bool := UInt32.ofNat r.parts.len = r.total

/-- The loop of `Assemble` over the indices; a missing part is an empty payload. --/
def Reassembler.openAll (r : Reassembler) (transferID : TransferID) : List Nat → Except String (List Bytes)
  | [] => .ok []
  | i :: is =>
    match r.sealer.openBytes ((r.parts.get? (UInt32.ofNat i)).getD []) (aad transferID (UInt32.ofNat i) r.total) with
    | .error e => .error ("fragment: opening fragment " ++ toString (UInt32.ofNat i) ++ ": " ++ e)
    | .ok plain => (r.openAll transferID is).map (plain :: ·)

def Reassembler.assemble (r : Reassembler) (transferID : TransferID) : Except String Bytes :=
  if r.complete then (r.openAll transferID (List.range r.total.toNat)).map join else .error errIncomplete

/-! ### Sealed shards -/

/-- The package `reedsolomon`, with the number of data and of parity shards first. An empty shard is a
    missing one. --/
structure ReedSolomon where
  new : Nat → Nat → Except String Unit
  split : Nat → Nat → Bytes → Except String (List Bytes)
  encode : Nat → Nat → List Bytes → Except String (List Bytes)
  reconstruct : Nat → Nat → List Bytes → Except String (List Bytes)
  join : Nat → Nat → List Bytes → Int → Except Failure Bytes

structure RSFragmenter where
  sealer : Sealer
  dataShards : Int
  parityShards : Int
  shards_pos : 0 < dataShards ∧ 0 < parityShards

def newRSFragmenter (sealer : Option Sealer) (dataShards parityShards : Int) : Except String RSFragmenter :=
  match sealer with
  | none => .error errNilSealer
  | some sealer =>
    if h : 0 < dataShards ∧ 0 < parityShards then .ok ⟨sealer, dataShards, parityShards, h⟩ else .error errShardCount

/-- The shards of the data: `New`, `Split` and `Encode`. --/
def ReedSolomon.shards (rs : ReedSolomon) (d p : Nat) (data : Bytes) : Except String (List Bytes) := do
  (rs.new d p).mapError ("fragment: new rs encoder: " ++ ·)
  let parts ← (rs.split d p data).mapError ("fragment: rs split: " ++ ·)
  (rs.encode d p parts).mapError ("fragment: rs encode: " ++ ·)

def RSFragmenter.fragment (f : RSFragmenter) (rs : ReedSolomon) (draw : Nat) (transferID : TransferID) (data : Bytes) :
    Except String (List Fragment × Nat) := do
  if data.length < f.dataShards then throw errShortData
  let shards ← rs.shards f.dataShards.toNat f.parityShards.toNat data
  let frags ← sealParts f.sealer draw transferID "shard" (UInt32.ofNat shards.length) 0 shards
  return (frags, data.length)

/-- A receiver without a key has no sealer. --/
structure RSReassembler where
  sealer : Option Sealer
  dataShards : Nat
  parityShards : Nat
  originalLen : Int
  total : UInt32
  parts : GoMap UInt32 Bytes

def newRSReassembler (sealer : Option Sealer) (dataShards parityShards : Nat) (originalLen : Int) : RSReassembler :=
  ⟨sealer, dataShards, parityShards, originalLen, UInt32.ofNat (dataShards + parityShards), ∅⟩

namespace RSReassembler

def add (r : RSReassembler) (fr : Fragment) : Except String RSReassembler :=
  (addPart r.total r.parts fr).map fun parts => { r with parts }

def plain? (r : RSReassembler) (sealer : Sealer) (transferID : TransferID) (i : Nat) : Option Bytes :=
  (r.parts.get? (UInt32.ofNat i)).bind fun sealed =>
    (sealer.openBytes sealed (aad transferID (UInt32.ofNat i) r.total)).toOption

/-- The shards in order, a missing or unopenable one as an empty one, and how many of them opened. --/
def openShards (r : RSReassembler) (sealer : Sealer) (transferID : TransferID) : List Bytes × Nat :=
  let found := (List.range r.total.toNat).map (r.plain? sealer transferID)
  (found.map (·.getD []), found.countP (·.isSome))

def reconstruct (r : RSReassembler) (rs : ReedSolomon) (transferID : TransferID) : Except Failure Bytes := do
  ((rs.new r.dataShards r.parityShards).mapError ("fragment: new rs encoder: " ++ ·)).mapError .error
  let (shards, valid) ← match r.sealer with
    | some sealer => pure (r.openShards sealer transferID)
    | none =>
      -- A part to open, and no sealer to open it with.
      if (List.range r.total.toNat).any fun i => (r.parts.get? (UInt32.ofNat i)).isSome then
        throw (.panic "invalid memory address or nil pointer dereference")
      else pure (List.replicate r.total.toNat [], 0)
  if valid < r.dataShards then throw (.error errTooFewShards)
  let full ← ((rs.reconstruct r.dataShards r.parityShards shards).mapError
    ("fragment: rs reconstruct: " ++ ·)).mapError .error
  (rs.join r.dataShards r.parityShards full r.originalLen).mapError (.wrap "fragment: rs join: ")

end RSReassembler
end SyncSwarm.Fragment
