import SyncSwarm.Protocol.Packet

/-! Packets with all their fields: what a signature covers, and the form on the wire. A Go string is a string of
    bytes; here its characters are its bytes. -/

namespace SyncSwarm.Protocol
open Lib

/-! ### Strings -/

def strBytes (s : String) : Bytes := s.toList.map fun c => UInt8.ofNat c.toNat

def goString (b : Bytes) : String := String.ofList (b.map fun x => Char.ofNat x.toNat)

def hexDigit (n : UInt8) : Char := if n < 10 then Char.ofNat (48 + n.toNat) else Char.ofNat (87 + n.toNat)

def hexString (b : Bytes) : String := String.ofList (b.flatMap fun x => [hexDigit (x / 16), hexDigit (x % 16)])

/-! ### Keys -/

/-- SHA-256 and Ed25519 of the standard library. --/
structure Signatures where
  sha256 : Bytes → FixedBytes 32
  publicKey : Bytes → Bytes
  sign : Bytes → Bytes → Bytes
  /-- The public key, the message, the signature. -/
  verify : Bytes → Bytes → Bytes → Bool

def deriveNodeID (S : Signatures) (signPub : Bytes) : String :=
  if signPub.length = 0 then "" else hexString ((S.sha256 signPub).val.take 16)

/-- `ed25519.Verify` behind the tests of the two lengths. --/
def Signatures.verifies (S : Signatures) (signKey msg signature : Bytes) : Bool :=
  signKey.length = 32 && signature.length = 64 && S.verify signKey msg signature

/-! ### Packets -/

inductive PacketType where
  | data
  | discovery
  | latencyCheck
  | latencyReply
  | acknowledgement
  | peerExchange
  | relay
  | reservation
  | findNode
  | findNodeReply
  | reachabilityCheck
  | reachabilityResult
  | announce
  | pathRequest
  | linkRequest
  | linkProof
  | linkData
  | routed
  | routedDiscovery
  | unknown (code : UInt8)
  deriving DecidableEq

namespace PacketType

def known : List PacketType :=
  [data, discovery, latencyCheck, latencyReply, acknowledgement, peerExchange, relay, reservation,
    findNode, findNodeReply,
   reachabilityCheck, reachabilityResult, announce, pathRequest, linkRequest, linkProof, linkData, routed,
     routedDiscovery]

def code : PacketType → UInt8
  | unknown code => code
  | type => UInt8.ofNat (known.idxOf type)

def ofCode (code : UInt8) : PacketType := known[code.toNat]?.getD (unknown code)

end PacketType

structure SignedPacket extends Packet where
  type : PacketType
  timestamp : Int := 0
  destGroup : String := ""
  destNode : String := ""
  decoy : Bool := false
  pad : Bytes := []
  payloadSize : UInt32 := 0
  signerKey : Bytes := []
  signature : Bytes := []
  deriving DecidableEq

def lenBytes (b : Bytes) : Bytes := be32 (UInt32.ofNat b.length) ++ b

def boolByte (v : Bool) : UInt8 := if v then 1 else 0

namespace SignedPacket

/-- The time, the padding and the signature are not covered. --/
def canonicalBytes (p : SignedPacket) : Bytes :=
  p.type.code :: p.id.val
    ++ lenBytes (strBytes p.sourceNode) ++ lenBytes (strBytes p.destGroup) ++ lenBytes (strBytes p.destNode)
    ++ be32 p.chunkNumber ++ be32 p.totalChunks ++ be32 p.payloadSize
    ++ be32 p.dataShards ++ be32 p.parityShards ++ be64 p.originalLen
    ++ be32 p.subIndex ++ be32 p.subTotal
    ++ [boolByte p.streaming] ++ be32 p.blockIndex ++ be32 p.blockLen ++ [boolByte p.final]
    ++ [boolByte p.hybridSealed, boolByte p.pq, boolByte p.resumable, boolByte p.isVariable]
    ++ lenBytes p.signerKey ++ lenBytes p.replyBlock ++ [boolByte p.decoy] ++ p.payload

/-- `Sign`; the length of the private key is tested. --/
def sign (S : Signatures) (priv : Bytes) (p : SignedPacket) : SignedPacket :=
  if priv.length = 64 then
    let q := { p with signerKey := S.publicKey priv }
    { q with signature := S.sign priv q.canonicalBytes }
  else p

def verify (S : Signatures) (p : SignedPacket) : Bool := S.verifies p.signerKey p.canonicalBytes p.signature

def signerID (S : Signatures) (p : SignedPacket) : String := deriveNodeID S p.signerKey

/-- `NewPacket` at the time `now`, which `text` prints. --/
def new (S : Signatures) (text : Int → Bytes) (type : PacketType) (payload : Bytes)
    (destGroup destNode : String) (now : Int) :
    SignedPacket :=
  { id := S.sha256 (payload ++ text now), type, timestamp := now, destGroup, destNode,
    payloadSize := UInt32.ofNat payload.length, payload }

end SignedPacket

/-! ### Routed payloads -/

def encodeRouted (hopLimit : UInt8) (inner : Bytes) : Bytes := hopLimit :: inner

def routedHopLimit (payload : Bytes) : UInt8 := payload.headD 0

def routedInner (payload : Bytes) : Bytes := payload.tail

/-! ### The form on the wire -/

def marshalBinary (p : SignedPacket) : Bytes :=
  p.id.val ++ [p.type.code] ++ be64 (UInt64.ofInt p.timestamp)
    ++ lenBytes (strBytes p.sourceNode) ++ lenBytes (strBytes p.destGroup) ++ lenBytes (strBytes p.destNode)
    ++ be32 p.totalChunks ++ be32 p.chunkNumber ++ be32 p.subIndex ++ be32 p.subTotal
    ++ [boolByte p.streaming] ++ be32 p.blockIndex ++ be32 p.blockLen
    ++ [boolByte p.final, boolByte p.hybridSealed, boolByte p.pq, boolByte p.resumable]
    ++ be32 p.dataShards ++ be32 p.parityShards ++ be64 p.originalLen
    ++ [boolByte p.isVariable, boolByte p.decoy] ++ be32 p.payloadSize
    ++ lenBytes p.payload ++ lenBytes p.signerKey ++ lenBytes p.signature ++ lenBytes p.replyBlock ++ lenBytes p.pad

structure Reader where
  b : Bytes
  err : Bool

namespace Reader

def take (n : Nat) : StateM Reader Bytes := fun r =>
  if r.err then ([], r) else if r.b.length < n then ([], { r with err := true }) else
    (r.b.take n, { r with b := r.b.drop n })

def u8 : StateM Reader UInt8 := do return (← take 1).headD 0

def u32 : StateM Reader UInt32 := do
  let d ← take 4
  return if d.length = 4 then Lib.u32 d else 0

def u64 : StateM Reader UInt64 := do
  let d ← take 8
  return if d.length = 8 then UInt64.ofNat (beNat d) else 0

def bool : StateM Reader Bool := do return (← u8) = 1

def bytes : StateM Reader Bytes := do take (← u32).toNat

def string : StateM Reader String := do return goString (← bytes)

def packet : StateM Reader SignedPacket := do
  let id ← take 32
  let type ← u8
  let timestamp ← u64
  let sourceNode ← string
  let destGroup ← string
  let destNode ← string
  let totalChunks ← u32
  let chunkNumber ← u32
  let subIndex ← u32
  let subTotal ← u32
  let streaming ← bool
  let blockIndex ← u32
  let blockLen ← u32
  let final ← bool
  let hybridSealed ← bool
  let pq ← bool
  let resumable ← bool
  let dataShards ← u32
  let parityShards ← u32
  let originalLen ← u64
  let isVariable ← bool
  let decoy ← bool
  let payloadSize ← u32
  let payload ← bytes
  let signerKey ← bytes
  let signature ← bytes
  let replyBlock ← bytes
  let pad ← bytes
  return { id := FixedBytes.copy 32 id, type := .ofCode type, timestamp := timestamp.toInt64.toInt, sourceNode,
           destGroup, destNode, totalChunks, chunkNumber, subIndex, subTotal, streaming, blockIndex, blockLen, final,
             hybridSealed, pq, resumable,
           dataShards, parityShards, originalLen, isVariable, decoy, payloadSize, payload, signerKey, signature,
             replyBlock, pad }

end Reader

def unmarshalBinary (data : Bytes) : Option SignedPacket :=
  let (p, r) := Reader.packet.run ⟨data, false⟩
  if r.err then none else some p

/-! ### Frames -/

def maxFrameSize : UInt32 := 8388608

def writePacket (p : SignedPacket) : Bytes :=
  let body := marshalBinary p
  be32 (UInt32.ofNat body.length) ++ body

inductive ReadError where
  | eof
  | unexpectedEOF
  | malformedPacket
  deriving DecidableEq

/-- `io.ReadFull` into `n` bytes, from a stream of which these bytes are left. --/
def readFull (n : Nat) (stream : Bytes) : Except ReadError (Bytes × Bytes) :=
  if n = 0 then .ok ([], stream)
  else if stream = [] then .error .eof
  else if stream.length < n then .error .unexpectedEOF
  else .ok (stream.take n, stream.drop n)

def readPacket (stream : Bytes) : Except ReadError (SignedPacket × Bytes) := do
  let (hdr, stream) ← readFull 4 stream
  let n := u32 hdr
  if maxFrameSize < n then throw .malformedPacket
  let (body, stream) ← readFull n.toNat stream
  match unmarshalBinary body with
  | some p => return (p, stream)
  | none => throw .malformedPacket

end SyncSwarm.Protocol
