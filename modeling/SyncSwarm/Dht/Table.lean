import SyncSwarm.Lib.Nearest
import SyncSwarm.Lib.Recent
import SyncSwarm.Lib.Xor

/-! The Kademlia routing table (`internal/dht`): node IDs under the XOR metric and the k-buckets. -/

namespace SyncSwarm.Dht
open Lib

def idLen : Nat := 16

def idBits : Nat := idLen * 8

def defaultK : Nat := 20

abbrev ID := FixedBytes idLen

namespace ID

def isZero (id : ID) : Bool := id.val.all (· = 0)

def xor (a b : ID) : ID := ⟨List.zipWith (· ^^^ ·) a.val b.val, by simp⟩

def less (a b : ID) : Bool := lexLess a.val b.val

def closer (target a b : ID) : Bool := less (xor a target) (xor b target)

/-- The index of the most significant bit in which the two differ, or `none` (the source's -1) when they
    are the same. --/
def bucketIndex (self other : ID) : Option Nat := topBit (xor self other).val

end ID

open ID

structure Contact where
  id : ID
  address : String
  port : UInt16
  deriving DecidableEq

structure RoutingTable where
  self : ID
  k : Nat
  buckets : Nat → List Contact
  k_pos : 0 < k
  placed : ∀ i, ∀ c ∈ buckets i, bucketIndex self c.id = some i
  nonzero : ∀ i, ∀ c ∈ buckets i, c.id.isZero = false
  distinct : ∀ i, ((buckets i).map Contact.id).Nodup
  bounded : ∀ i, (buckets i).length ≤ k

def newRoutingTable (self : ID) (k : Int) : RoutingTable where
  self := self
  k := if k ≤ 0 then defaultK else k.toNat
  buckets := fun _ => []
  k_pos := by split <;> simp [defaultK]; omega
  placed := nofun
  nonzero := nofun
  distinct := fun _ => List.nodup_nil
  bounded := fun _ => Nat.zero_le _

namespace RoutingTable

/-- `Update`: records a sighting of `c`, which moves to the newest position of its bucket; a full bucket
    drops its oldest contact for a new one. The table's owner and the zero ID are ignored. --/
def update (rt : RoutingTable) (c : Contact) : RoutingTable :=
  if h : c.id = rt.self ∨ c.id.isZero then rt
  else
    match hbi : bucketIndex rt.self c.id with
    | none => rt
    | some bi =>
      { rt with
        buckets := fun i => if i = bi then sight Contact.id rt.k (rt.buckets i) c else rt.buckets i
        placed := by
          intro i d hd
          split at hd
          next hi =>
            rcases mem_sight hd with hd | rfl
            · exact rt.placed i d hd
            · exact hi ▸ hbi
          · exact rt.placed i d hd
        nonzero := by
          intro i d hd
          split at hd
          · rcases mem_sight hd with hd | rfl
            · exact rt.nonzero i d hd
            · simpa using (not_or.mp h).2
          · exact rt.nonzero i d hd
        distinct := by
          intro i
          split
          · exact nodup_sight (rt.distinct i) c
          · exact rt.distinct i
        bounded := by
          intro i
          split
          · exact length_sight_le rt.k_pos (rt.bounded i) c
          · exact rt.bounded i }

def contacts (rt : RoutingTable) : List Contact := (List.range idBits).flatMap rt.buckets

/-- `Closest`: up to `count` contacts nearest to the target, closest first. A negative `count` means all. --/
def closest (rt : RoutingTable) (target : ID) (count : Int) : List Contact :=
  let all := sortSlice (fun a b => closer target a.id b.id) rt.contacts
  if 0 ≤ count then all.take count.toNat else all

end RoutingTable
end SyncSwarm.Dht
