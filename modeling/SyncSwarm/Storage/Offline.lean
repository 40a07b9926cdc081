import Mathlib.Data.List.Dedup
import SyncSwarm.Lib.Map
import SyncSwarm.Lib.Nearest
import SyncSwarm.Protocol.Signed

/-! Held blobs on disk. What is below their directory is a map from paths to bytes; a directory is there
    while a file is in it. -/

namespace SyncSwarm.Storage
open Lib Protocol

/-- The names are ASCII: their characters are ordered as their bytes. --/
abbrev Name := List Char

abbrev Path := List Name

abbrev Files := GoMap Path Bytes

structure OfflineBlob where
  seq : UInt64
  blob : Bytes
  /-- The nanoseconds of `UnixNano`. -/
  expiry : Int64
  deriving DecidableEq

/-- `filepath.Join`: empty elements are ignored. --/
def join (elems : List Name) : Path := elems.filter (· ≠ [])

def offlineNodeDir (nodeID : Bytes) : Path := join [(hexString nodeID).toList]

def suffix : Name := ['.', 'b', 'l', 'o', 'b']

def blobName (seq : Nat) : Name := Nat.toDigits 10 seq ++ suffix

def saveOffline (fs : Files) (nodeID : Bytes) (b : OfflineBlob) : Files :=
  fs.set (offlineNodeDir nodeID ++ [blobName b.seq.toNat]) (be64 b.expiry.toUInt64 ++ b.blob)

def deleteOffline (fs : Files) (nodeID : Bytes) (seq : UInt64) : Files :=
  fs.delete (offlineNodeDir nodeID ++ [blobName seq.toNat])

def deleteOfflineNode (fs : Files) (nodeID : Bytes) : Files :=
  fs.filter fun path _ => !(offlineNodeDir nodeID).isPrefixOf path

def nameLess : Name → Name → Bool
  | _, [] => false
  | [], _ :: _ => true
  | a :: as, b :: bs => a.toNat < b.toNat || (a = b && nameLess as bs)

/-- `os.ReadDir`, which sorts the names. --/
def readDir (fs : Files) (dir : Path) : List Name :=
  sortSlice nameLess (fs.keys.filterMap fun path => if dir.isPrefixOf path then path[dir.length]? else none).dedup

def isDir (fs : Files) (path : Path) : Bool := fs.keys.any fun p => path.isPrefixOf p && p != path

/-- `filepath.Ext`. --/
def ext (name : Name) : Name := if '.' ∈ name then '.' :: (name.reverse.takeWhile (· ≠ '.')).reverse else []

/-- `fmt.Sscanf` with `%d.blob`, which does not read what comes behind. --/
def scanName (name : Name) : Option UInt64 :=
  let tok := name.takeWhile Char.isDigit
  let seq := Nat.ofDigitChars 10 tok 0
  if tok ≠ [] ∧ seq < 18446744073709551616 ∧ suffix.isPrefixOf (name.dropWhile Char.isDigit) then some
    (UInt64.ofNat seq) else none

def fromHexChar (c : Char) : Option UInt8 :=
  if '0' ≤ c ∧ c ≤ '9' then some (UInt8.ofNat (c.toNat - 48))
  else if 'a' ≤ c ∧ c ≤ 'f' then some (UInt8.ofNat (c.toNat - 87))
  else if 'A' ≤ c ∧ c ≤ 'F' then some (UInt8.ofNat (c.toNat - 55))
  else none

def hexByte (high low : Char) : Option UInt8 :=
  (fromHexChar high).bind fun a => (fromHexChar low).map fun b => a <<< 4 ||| b

/-- `hex.DecodeString`. --/
def hexDecode : Name → Option Bytes
  | [] => some []
  | [_] => none
  | high :: low :: rest => (hexByte high low).bind fun x => (hexDecode rest).map (x :: ·)

def loadBlob (fs : Files) (dir name : Name) : Option OfflineBlob :=
  if isDir fs [dir, name] || ext name != suffix then none
  else
    (scanName name).bind fun seq => (fs.get? [dir, name]).bind fun data =>
      if data.length < 8 then none
      else some ⟨seq, data.drop 8, (UInt64.ofNat (beNat (data.take 8))).toInt64⟩

abbrev Loaded := GoMap Bytes (List OfflineBlob)

def Loaded.push (nodeID : Bytes) (out : Loaded) (b : OfflineBlob) : Loaded :=
  GoMap.set out nodeID ((GoMap.get? out nodeID).getD [] ++ [b])

def loadDir (fs : Files) (out : Loaded) (dir : Name) : Loaded :=
  if !isDir fs [dir] then out
  else
    match hexDecode dir with
    | none => out
    | some nodeID => ((readDir fs [dir]).filterMap (loadBlob fs dir)).foldl (Loaded.push nodeID) out

def loadOffline (fs : Files) : Loaded := (readDir fs []).foldl (loadDir fs) ∅

inductive Op where
  | save (nodeID : Bytes) (b : OfflineBlob)
  | delete (nodeID : Bytes) (seq : UInt64)
  | deleteNode (nodeID : Bytes)

def Op.nodeID : Op → Bytes
  | .save nodeID _ | .delete nodeID _ | .deleteNode nodeID => nodeID

def apply (fs : Files) : Op → Files
  | .save nodeID b => saveOffline fs nodeID b
  | .delete nodeID seq => deleteOffline fs nodeID seq
  | .deleteNode nodeID => deleteOfflineNode fs nodeID

end SyncSwarm.Storage
