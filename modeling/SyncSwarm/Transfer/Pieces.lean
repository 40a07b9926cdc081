import SyncSwarm.Fragment.Fragment

/-! The whole-payload transfer: fragments and their packets, and the buffers that put them together again. -/

namespace SyncSwarm.Transfer
open Lib Protocol Fragment

def defaultStreamBlockSize : Int := 4 * 1024 * 1024

/-- The settings of a node that sending and receiving read. The chunk size is a constant of the source, one
    megabyte. --/
structure Config where
  dataShards : Int
  parityShards : Int
  maxChunkSize : Int := 1024 * 1024
  streamBlockSize : Int := defaultStreamBlockSize
  /-- Whether `onData` and `streamSink` are set. -/
  hasOnData : Bool := true
  hasSink : Bool := false
  /-- The shared-key sealer, if a key is configured. -/
  sealer : Option Sealer
  /-- `NewHybridSealer` and `NewPQHybridSealer` with this node's private keys. -/
  hybridSealer : Sealer
  pqSealer : Sealer

structure Scheme where
  dataShards : UInt32 := 0
  parityShards : UInt32 := 0
  originalLen : UInt64 := 0
  isVariable : Bool := false
  streaming : Bool := false
  hybridSealed : Bool := false
  pq : Bool := false
  resumable : Bool := false
  deriving DecidableEq

def schemeFromPacket (p : Packet) : Scheme where
  dataShards := p.dataShards
  parityShards := p.parityShards
  originalLen := p.originalLen
  isVariable := p.isVariable
  streaming := p.streaming
  hybridSealed := p.hybridSealed
  pq := p.pq
  resumable := p.resumable

def applyScheme (p : Packet) (sc : Scheme) : Packet :=
  { p with
    dataShards := sc.dataShards
    parityShards := sc.parityShards
    originalLen := sc.originalLen
    isVariable := sc.isVariable
    streaming := sc.streaming
    hybridSealed := sc.hybridSealed
    pq := sc.pq
    resumable := sc.resumable }

def Config.recipientOpener (t : Config) (sc : Scheme) : Option Sealer :=
  if sc.hybridSealed then some (if sc.pq then t.pqSealer else t.hybridSealer) else t.sealer

/-! ### Sending -/

/-- The erasure-coded branch of `buildFragments`. --/
def Config.buildShards (t : Config) (rs : ReedSolomon) (id : TransferID) (data : Bytes) (sc : Scheme)
    (sealer : Option Sealer) : Except String (List Fragment × Scheme) := do
  let f ← newRSFragmenter sealer t.dataShards t.parityShards
  let (frags, origLen) ← f.fragment rs 0 id data
  return (frags, { sc with
    dataShards := UInt32.ofNat t.dataShards.toNat
    parityShards := UInt32.ofNat t.parityShards.toNat
    originalLen := UInt64.ofNat origLen })

def plainFragments (id : TransferID) (cs : List Bytes) : List Fragment :=
  cs.mapIdx fun i c => { transferID := id, index := UInt32.ofNat i, total := UInt32.ofNat cs.length, payload := c }

/-- Sequential chunking, with or without a sealer. The random bytes that a failed erasure-coded branch drew
    are not drawn again. --/
def Config.buildChunks (t : Config) (id : TransferID) (data : Bytes) (sealer : Option Sealer) :
    Except String (List Fragment) := do
  if sealer.isSome then
    let f ← newFragmenter sealer t.maxChunkSize
    f.fragment (t.dataShards.toNat + t.parityShards.toNat) id data
  else return plainFragments id (split data t.maxChunkSize)

def Config.buildFragments (t : Config) (rs : ReedSolomon) (id : TransferID) (data : Bytes) (isVariable : Bool)
    (sealer : Option Sealer) : Except String (List Fragment × Scheme) :=
  let sc : Scheme := { isVariable }
  let sequential := (t.buildChunks id data sealer).map fun frags => (frags, sc)
  if sealer.isSome ∧ 0 < t.dataShards ∧ 0 < t.parityShards ∧ t.dataShards ≤ data.length then
    match t.buildShards rs id data sc sealer with
    | .ok out => .ok out
    | .error _ => sequential
  else sequential

def fragmentPieces (frag : Fragment) (subChunkSize : Int) : List Fragment :=
  if subChunkSize ≤ 0 ∨ frag.payload.length ≤ subChunkSize then [{ frag with subIndex := 0, subTotal := 1 }]
  else
    let parts := split frag.payload subChunkSize
    parts.mapIdx fun i p =>
      { frag with subIndex := UInt32.ofNat i, subTotal := UInt32.ofNat parts.length, payload := p }

def routedFrameOverhead : Int := 256
def innerFragmentReserve : Int := 256
def minRoutedSubChunk : Int := 64

/-- The size of the pieces that `sendRouted` makes, from the largest frame that the way to the destination takes. --/
def routedSubChunkFor (mtu subChunkSize padCell : Int) : Int :=
  if mtu ≤ 0 then subChunkSize
  else
    let budget := mtu - routedFrameOverhead - innerFragmentReserve - padCell
    let budget := if budget < minRoutedSubChunk then minRoutedSubChunk else budget
    if budget < subChunkSize then budget else subChunkSize

/-- The packet of a piece, as every way of sending makes it. --/
def packetOf (id : TransferID) (sc : Scheme) (sourceNode : String) (replyBlock : Bytes) (piece : Fragment) : Packet :=
  applyScheme
    { id
      sourceNode
      replyBlock
      chunkNumber := piece.index
      totalChunks := piece.total
      subIndex := piece.subIndex
      subTotal := piece.subTotal
      streaming := piece.streaming
      blockIndex := piece.blockIndex
      blockLen := piece.blockLen
      final := piece.final
      payload := piece.payload } sc

def packetsOf (id : TransferID) (sc : Scheme) (sourceNode : String) (replyBlock : Bytes) (subChunkSize : Int)
    (frags : List Fragment) : List Packet :=
  (frags.flatMap (fragmentPieces · subChunkSize)).map (packetOf id sc sourceNode replyBlock)

/-! ### Receiving -/

/-- The buffers of a transfer, or of a block of a stream: the fragments that are whole, and the pieces of
    those that are not. --/
structure Buffers where
  received : GoMap UInt32 Bool
  chunks : GoMap UInt32 Bytes
  subParts : GoMap UInt32 (GoMap UInt32 Bytes)
  /-- The two maps of whole fragments are written together. -/
  recorded : ∀ i, received.get? i = (chunks.get? i).map fun _ => true

/-- The first piece that arrives for a place stays. --/
def addPiece (parts : GoMap UInt32 Bytes) (pkt : Packet) : GoMap UInt32 Bytes :=
  if (parts.get? pkt.subIndex).isSome then parts else parts.set pkt.subIndex pkt.payload

def concatPieces (parts : GoMap UInt32 Bytes) (subTotal : UInt32) : Bytes :=
  ((List.range subTotal.toNat).map fun i => (parts.get? (UInt32.ofNat i)).getD []).flatten

namespace Buffers

def empty : Buffers := ⟨∅, ∅, ∅, fun _ => by simp⟩

/-- `absorbSubChunk`: the payload of the fragment that the packet completes, and the pieces afterwards. --/
def absorbSubChunk (b : Buffers) (pkt : Packet) : Option Bytes × GoMap UInt32 (GoMap UInt32 Bytes) :=
  let idx := pkt.chunkNumber
  if (b.received.get? idx).getD false then (none, b.subParts)
  else if pkt.subTotal ≤ 1 then (some pkt.payload, b.subParts)
  else if pkt.subTotal ≤ pkt.subIndex then (none, b.subParts)
  else
    let parts := addPiece ((b.subParts.get? idx).getD ∅) pkt
    if UInt32.ofNat parts.len < pkt.subTotal then (none, b.subParts.set idx parts)
    else (some (concatPieces parts pkt.subTotal), b.subParts.delete idx)

def put (b : Buffers) (idx : UInt32) (payload : Bytes) : Buffers where
  received := b.received.set idx true
  chunks := b.chunks.set idx payload
  subParts := b.subParts
  recorded i := by
    rw [GoMap.get?_set, GoMap.get?_set]
    split
    · rfl
    · exact b.recorded i

/-- What the receive paths do with a packet: absorb it, and record the fragment that it completes. --/
def record (b : Buffers) (pkt : Packet) : Buffers :=
  let (payload, subParts) := b.absorbSubChunk pkt
  match payload with
  | some p => { b with subParts }.put pkt.chunkNumber p
  | none => { b with subParts }

def recordAll (b : Buffers) : List Packet → Buffers × List UInt32
  | [] => (b, [])
  | pkt :: pkts =>
    let rest := (b.record pkt).recordAll pkts
    (rest.1, if (b.absorbSubChunk pkt).1.isSome then pkt.chunkNumber :: rest.2 else rest.2)

end Buffers

structure TransferState extends Buffers where
  id : TransferID
  total : UInt32
  scheme : Scheme
  sourceNode : String
  replyBlock : Bytes
  routed : Bool
  delivered : Bool

namespace TransferState

def recordAll (st : TransferState) (pkts : List Packet) : TransferState × List UInt32 :=
  let out := st.toBuffers.recordAll pkts
  ({ st with toBuffers := out.1 }, out.2)

def isCompleteLocked (st : TransferState) : Bool :=
  UInt32.ofNat st.received.len = st.total &&
    (List.range st.total.toNat).all fun i => (st.received.get? (UInt32.ofNat i)).getD false

def enoughToReassembleLocked (st : TransferState) : Bool :=
  if 0 < st.scheme.dataShards then st.scheme.dataShards ≤ UInt32.ofNat st.received.len else st.isCompleteLocked

end TransferState

/-- `reassembleChunks`: the fragments are added in order, then opened and joined. --/
def reassembleChunks (sealer : Option Sealer) (id : TransferID) (total : UInt32) (chunks : GoMap UInt32 Bytes) :
    Except String Bytes :=
  let chunk (i : Nat) : Bytes := (chunks.get? (UInt32.ofNat i)).getD []
  match sealer with
  | some sealer => do
    let r ← (List.range total.toNat).foldlM
      (fun r i => r.add { transferID := id, index := UInt32.ofNat i, total, payload := chunk i })
      (newReassembler sealer total)
    r.assemble id
  | none => .ok (join ((List.range total.toNat).map chunk))

def addShards (r : RSReassembler) (id : TransferID) (total : UInt32) (chunks : GoMap UInt32 Bytes) : RSReassembler :=
  chunks.entries.foldl
    (fun r e => (r.add { transferID := id, index := e.1, total, payload := e.2 }).toOption.getD r) r

/-- The length that the reassembler is given: `int` of a 64-bit number, which may come out negative. --/
def intOfLen (n : UInt64) : Int := if n.toNat < 9223372036854775808 then n.toNat else n.toNat - 18446744073709551616

def Config.reassemble (t : Config) (rs : ReedSolomon) (st : TransferState) : Except Failure Bytes :=
  let sealer := t.recipientOpener st.scheme
  if 0 < st.scheme.dataShards then
    let r := newRSReassembler sealer st.scheme.dataShards.toNat st.scheme.parityShards.toNat
      (intOfLen st.scheme.originalLen)
    (addShards r st.id st.total st.chunks).reconstruct rs st.id
  else (reassembleChunks sealer st.id st.total st.chunks).mapError .error

end SyncSwarm.Transfer
