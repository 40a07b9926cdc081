import SyncSwarm.Transfer.Pieces

/-! Streams: content that is cut into blocks, each coded and sealed by itself, and the assembler that
    writes them out in order. -/

namespace SyncSwarm.Transfer
open Lib Protocol Fragment

/-! ### Sending -/

def padTo (n : Nat) (data : Bytes) : Bytes := data ++ List.replicate (n - data.length) 0

/-- `draw` calls of the sealer came before. --/
def Config.encodeBlock (t : Config) (rs : ReedSolomon) (draw : Nat) (id : TransferID)
    (blockIndex : UInt32) (data : Bytes)
    (final : Bool) (sealer : Option Sealer) : Except String (List Fragment) := do
  let f ← newRSFragmenter sealer t.dataShards t.parityShards
  let (frags, _) ← f.fragment rs draw id (padTo t.dataShards.toNat data)
  return frags.map fun frag => { frag with
    streaming := true
    blockIndex
    blockLen := UInt32.ofNat data.length
    final }

/-- What the successive calls of `readBlock` return until there is nothing left to read: the blocks, and whether
    the read was short. --/
def readBlocks (size : Nat) (content : Bytes) : List (Bytes × Bool) :=
  (chunks size content).map fun block => (block, decide (block.length < size))

/-- The loop of `streamBlocks` with the block that was read last and those that will be read. A block is the final
    one when its read was short or the next one finds nothing. --/
def streamLoop (emit : Nat → UInt32 → Bytes → Bool → Except String (List Fragment)) (draw : Nat) (blockIndex : UInt32)
    (prev : Bytes × Bool) : List (Bytes × Bool) → List Fragment × Option String
  | [] =>
    match emit draw blockIndex prev.1 true with
    | .error e => ([], some e)
    | .ok frags => (frags, none)
  | next :: rest =>
    match emit draw blockIndex prev.1 prev.2 with
    | .error e => ([], some e)
    | .ok frags =>
      if prev.2 then (frags, none)
      else
        let (more, err) := streamLoop emit (draw + frags.length) (blockIndex + 1) next rest
        (frags ++ more, err)

def Config.blockSize (t : Config) : Int := if t.streamBlockSize ≤ 0 then defaultStreamBlockSize else t.streamBlockSize

def Config.streamBlocks (t : Config) (rs : ReedSolomon) (content : Bytes) (id : TransferID) (sealer : Option Sealer)
    (startBlock : UInt32) : List Fragment × Option String :=
  let emit draw i data final := t.encodeBlock rs draw id i data final sealer
  match readBlocks t.blockSize.toNat content with
  | [] => streamLoop emit 0 startBlock ([], true) []
  | prev :: rest => streamLoop emit 0 startBlock prev rest

def Config.streamScheme (t : Config) (hybridSealed pq resumable : Bool) : Scheme where
  dataShards := UInt32.ofNat t.dataShards.toNat
  parityShards := UInt32.ofNat t.parityShards.toNat
  streaming := true
  hybridSealed
  pq
  resumable

/-! ### Receiving -/

inductive Ack where
  | reply (block : Bytes)
  | direct (node : String) (id : TransferID)
  | routed (node : String) (id : TransferID)
  deriving DecidableEq

/-- What an assembler does to the outside: it writes a block to the sink, or to the buffer without one, and at
    the end closes the sink or hands the buffer to the callback, and acknowledges. --/
inductive StreamEvent where
  | write (data : Bytes)
  | finish (handed : Option Bytes) (ack : Option Ack)
  deriving DecidableEq

def StreamEvent.written : StreamEvent → Bytes
  | .write data => data
  | .finish _ _ => []

structure StreamBlock extends Buffers where
  total : UInt32
  blockLen : Nat
  final : Bool
  data : Bytes := []
  ready : Bool := false

structure StreamAssembler where
  id : TransferID
  dataShards : Nat
  parityShards : Nat
  blocks : GoMap UInt32 StreamBlock
  nextFlush : UInt32
  done : Bool
  replyBlock : Bytes
  sourceNode : String
  hybridSealed : Bool
  pq : Bool
  /-- Everything written so far, and whether it was finished. -/
  events : List StreamEvent

def newStreamAssembler (pkt : Packet) : StreamAssembler where
  id := pkt.id
  dataShards := pkt.dataShards.toNat
  parityShards := pkt.parityShards.toNat
  blocks := ∅
  nextFlush := 0
  done := false
  replyBlock := pkt.replyBlock
  sourceNode := pkt.sourceNode
  hybridSealed := pkt.hybridSealed
  pq := pkt.pq
  events := []

def newStreamBlock (pkt : Packet) : StreamBlock :=
  { Buffers.empty with total := pkt.totalChunks, blockLen := pkt.blockLen.toNat, final := pkt.final }

namespace StreamAssembler

def output (sa : StreamAssembler) : Bytes := (sa.events.map (·.written)).flatten

def reconstructBlock (sa : StreamAssembler) (t : Config) (rs : ReedSolomon) (b : StreamBlock) : Except Failure Bytes :=
  let sealer := t.recipientOpener { hybridSealed := sa.hybridSealed, pq := sa.pq }
  let r := newRSReassembler sealer sa.dataShards sa.parityShards b.blockLen
  (addShards r sa.id b.total b.chunks).reconstruct rs sa.id

def finish (sa : StreamAssembler) (t : Config) : StreamAssembler :=
  let handed := if t.hasSink ∨ !t.hasOnData then none else some sa.output
  let ack :=
    if 0 < sa.replyBlock.length then some (.reply sa.replyBlock)
    else if sa.sourceNode ≠ "" then some (.direct sa.sourceNode sa.id)
    else none
  { sa with done := true, events := sa.events ++ [.finish handed ack] }

def writeNext (sa : StreamAssembler) (b : StreamBlock) : StreamAssembler :=
  { sa with
    events := sa.events ++ [.write b.data]
    blocks := sa.blocks.delete sa.nextFlush
    nextFlush := sa.nextFlush + 1 }

/-- The loop of `flushReady`. Every round takes a block out of the map, so the number of blocks bounds the rounds. --/
def flushLoop (t : Config) : Nat → StreamAssembler → StreamAssembler
  | 0, sa => sa
  | rounds + 1, sa =>
    match sa.blocks.get? sa.nextFlush with
    | none => sa
    | some b =>
      if b.ready then if b.final then (sa.writeNext b).finish t else flushLoop t rounds (sa.writeNext b)
      else sa

def flushReady (sa : StreamAssembler) (t : Config) : StreamAssembler := flushLoop t sa.blocks.len sa

/-- A block after one more packet: with enough shards it is reconstructed and its buffers are dropped. --/
def absorb (sa : StreamAssembler) (t : Config) (rs : ReedSolomon) (b : StreamBlock) (pkt : Packet) :
    Except Failure StreamBlock :=
  let b' := { b with toBuffers := b.toBuffers.record pkt }
  if UInt32.ofNat sa.dataShards ≤ UInt32.ofNat b'.received.len then
    match sa.reconstructBlock t rs b' with
    | .ok data => .ok { b' with data, ready := true, toBuffers := .empty }
    | .error (.error _) => .ok b'
    | .error (.panic text) => .error (.panic text)
  else .ok b'

def add (sa : StreamAssembler) (t : Config) (rs : ReedSolomon) (pkt : Packet) : Except Failure StreamAssembler :=
  if sa.done then .ok sa
  else
    let b := (sa.blocks.get? pkt.blockIndex).getD (newStreamBlock pkt)
    if b.ready then .ok sa
    else (sa.absorb t rs b pkt).map fun b' => { sa with blocks := sa.blocks.set pkt.blockIndex b' }.flushReady t

def addAll (sa : StreamAssembler) (t : Config) (rs : ReedSolomon) (pkts : List Packet) :
    Except Failure StreamAssembler :=
  pkts.foldlM (fun sa pkt => sa.add t rs pkt) sa

end StreamAssembler

/-! ### Sinks -/

/-- What a call of `Write` or `Close` returns: the number of bytes it took, and whether there is an error. --/
structure SinkResult where
  taken : Nat
  failed : Bool

/-- How a sink answers, by the number of the call and the number of bytes it is given. The
    assembler drops the answers. --/
def Sink := Nat → Nat → SinkResult

namespace Sink

/-- The bytes that a sink has accepted when it was called for the events, after so many calls before. --/
def accepted (sink : Sink) (calls : Nat) : List StreamEvent → Bytes
  | [] => []
  | .write data :: es => data.take (sink calls data.length).taken ++ accepted sink (calls + 1) es
  | .finish _ _ :: es => accepted sink (calls + 1) es

def closed (sink : Sink) (calls : Nat) : List StreamEvent → Bool
  | [] => false
  | .write _ :: es => closed sink (calls + 1) es
  | .finish _ _ :: _ => !(sink calls 0).failed

end Sink
end SyncSwarm.Transfer
