import SyncSwarm.Protocol.Payloads
import SyncSwarm.Lib.Map
import SyncSwarm.Lib.Lists

/-! The path table, which announces fill, and the sets by which a node knows floods again. Times are in nanoseconds. -/

namespace SyncSwarm.Discovery
open Lib Protocol

def announceHopMax : Nat := 128

def announceDedupTTL : Int := 300000000000

def maxPaths : Nat := 4096

structure PathEntry where
  iface : String
  nextHop : String
  hops : UInt8
  lastSeen : Int
  originTS : Int
  ann : Option AnnouncePayload
  deriving DecidableEq

/-- Who writes an entry: `handleAnnounce` or `deliverRoutedDiscovery`. --/
inductive Writer where
  | announced
  | reversed
  deriving DecidableEq

structure PathTable where
  entries : GoMap String PathEntry
  /-- The entries that were stored, the last one first. -/
  stored : List (String × Writer)
  /-- The destinations whose entries were evicted. -/
  evicted : List String

namespace PathTable

def new : PathTable := ⟨∅, [], []⟩

def lookup (pt : PathTable) (dest : String) : Option PathEntry := pt.entries.get? dest

def evictOldestLocked (iter : GoMap.Iteration String PathEntry) (pt : PathTable) : PathTable :=
  match firstMin (fun e old => e.2.lastSeen < old.2.lastSeen) (iter.order pt.entries) with
  | some (oldestKey, _) =>
    if oldestKey ≠ "" then { pt with
      entries := pt.entries.delete oldestKey, evicted := oldestKey :: pt.evicted } else pt
  | none => pt

def store (iter : GoMap.Iteration String PathEntry) (pt : PathTable) (dest : String) (e : PathEntry) (writer : Writer) :
    PathTable :=
  let pt := { pt with entries := pt.entries.set dest e, stored := (dest, writer) :: pt.stored }
  if maxPaths < pt.entries.len then pt.evictOldestLocked iter else pt

def update (iter : GoMap.Iteration String PathEntry) (pt : PathTable) (dest : String) (e : PathEntry)
    (writer : Writer) :
    PathTable × Bool :=
  match pt.lookup dest with
  | some cur =>
    if e.originTS < cur.originTS then (pt, false)
    else if e.originTS = cur.originTS ∧ cur.hops ≤ e.hops then
      ({ pt with entries := pt.entries.set dest { cur with lastSeen := e.lastSeen } }, false)
    else (pt.store iter dest e writer, true)
  | none => (pt.store iter dest e writer, true)

end PathTable

abbrev DedupSet := GoMap String Int

/-- Whether the key was seen within the last five minutes; if not, it is recorded. --/
def DedupSet.observe (d : DedupSet) (now : Int) (key : String) : Bool × DedupSet :=
  if (d.get? key).any fun t => now - t < announceDedupTTL then (true, d)
  else
    let d := if 8192 < d.len then GoMap.filter d fun _ t => now - t < announceDedupTTL else d
    (false, GoMap.set d key now)

def u64hex (n : UInt64) : String := hexString (be64 n)

end SyncSwarm.Discovery
