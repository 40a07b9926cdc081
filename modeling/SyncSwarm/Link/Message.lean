import SyncSwarm.Link.Resource

/-! Messages over a link: their chunks (`internal/link/message.go`), and the part size of resources. -/

namespace SyncSwarm.Link
open Lib

abbrev MsgID := FixedBytes 8

def maxMessageChunks : Int := 65535
def maxMessageChunk : Int := 32 * 1024
def minMessageChunk : Int := 64
def linkFrameOverhead : Int := 300

/-- The value of an expression of type `int`: 64 bits, in two's complement. --/
def int64 (x : Int) : Int := Int.bmod x 18446744073709551616

/-! ### Sending -/

def maxChunkForMTU (mtu : Int) : Int :=
  if mtu ≤ 0 then maxMessageChunk else
  let budget := (int64 ((mtu - linkFrameOverhead) * 3)).tdiv 4
  if budget < minMessageChunk then minMessageChunk
  else if maxMessageChunk < budget then maxMessageChunk
  else budget

/-- The number of chunks of a message of `len` bytes: one at least, an empty one for an empty message. --/
def messageTotal (len : Nat) (chunk : Int) : Int :=
  let total := (int64 (len + chunk - 1)).tdiv chunk
  if total = 0 then 1 else total

def messageFrame (msgID : MsgID) (index total : UInt16) (payload : Bytes) : Bytes :=
  msgID.val ++ (be16 index ++ (be16 total ++ payload))

def sendAll (send : Bytes → Option String) : List Bytes → List Bytes × Option String
  | [] => ([], none)
  | frame :: frames =>
    match send frame with
    | some err => ([frame], some err)
    | none => (frame :: (sendAll send frames).1, (sendAll send frames).2)

/-- The frames that were handed to `send`, and the error. `drawn` is what the random source gives for the
    identifier. --/
def sendMessageChunks (send : Bytes → Option String) (drawn : Except String MsgID) (chunk : Int64) (data : Bytes) :
    List Bytes × Option String :=
  let chunk := if chunk.toInt < 1 then 1 else chunk.toInt
  match drawn with
  | .error err => ([], some err)
  | .ok msgID =>
    let total := messageTotal data.length chunk
    if maxMessageChunks < total then
      ([], some ("link: message " ++ toString data.length ++ " bytes needs " ++ toString total ++ " chunks at " ++
        toString chunk ++ "-byte MTU chunking, exceeds " ++ toString maxMessageChunks))
    else
      sendAll send ((List.range total.toNat).map fun i =>
        messageFrame msgID (UInt16.ofNat i) (UInt16.ofNat total.toNat) ((data.drop (i * chunk.toNat)).take chunk.toNat))

/-! ### Resources over the router of a link -/

/-- `mtuOf` gives the MTU toward an address, if the manager has one. --/
def chunkFor (mtuOf : Option (String → Int)) (addr : String) : Int :=
  match mtuOf with
  | some mtu => maxChunkForMTU (mtu addr)
  | none => maxMessageChunk

def resourceFrameOverhead : Int := 1 + 1 + resIDLen + 4

/-- The part size of `SendResource`: what a chunk has room for, one byte at least. --/
def resourcePartSize (chunk : Int) : Int :=
  let partSize := chunk - resourceFrameOverhead
  if partSize < 1 then 1 else partSize

/-- `SendResource` up to its wait: the sender after `Start`, and the frames that it sent. --/
def sendResource (sha256 : Bytes → Hash) (id : ResID) (mtuOf : Option (String → Int)) (peerAddr : String) (data : Bytes)
    (now : Int) : Except String (ResourceSender × List Bytes) :=
  (newResourceSender sha256 id data (resourcePartSize (chunkFor mtuOf peerAddr)) 0 0).map (·.start now)

end SyncSwarm.Link
