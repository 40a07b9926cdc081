import SyncSwarm.Transfer.Stream
import SyncSwarm.Lib.System

/-! The receiving node: calls of `ingestForwardedFragment` and connections that work at the same time on the table of
    transfer states. A step is one operation on the table or under one lock. -/

namespace SyncSwarm.Transfer
open Lib Protocol Fragment

structure State extends TransferState where
  stream : Option StreamAssembler := none
  hasMeta : Bool := false

def newForwardedState (pkt : Packet) (routed : Bool) : State :=
  { Buffers.empty with
    id := pkt.id
    total := pkt.totalChunks
    scheme := schemeFromPacket pkt
    sourceNode := pkt.sourceNode
    replyBlock := pkt.replyBlock
    routed
    delivered := false }

def newDirectState (pkt : Packet) : State :=
  { Buffers.empty with
    id := pkt.id
    total := pkt.totalChunks
    scheme := schemeFromPacket pkt
    sourceNode := pkt.sourceNode
    replyBlock := []
    routed := false
    delivered := false
    stream := if pkt.streaming then some (newStreamAssembler pkt) else none
    hasMeta := true }

namespace State

def isTransferComplete (st : State) : Bool :=
  match st.stream with
  | some sa => sa.done
  | none => st.isCompleteLocked

def ackSenders (st : State) : List Ack :=
  (if 0 < st.replyBlock.length then [.reply st.replyBlock] else []) ++
    if st.sourceNode ≠ "" then [if st.routed then .routed st.sourceNode st.id else .direct st.sourceNode st.id] else []

end State

/-- Where a call of `ingestForwardedFragment` is. --/
inductive CallPhase where
  | loaded
  | delivering (data : Bytes)
  | deleting
  | done
  deriving DecidableEq

structure IngestCall where
  pkt : Packet
  ref : Nat
  phase : CallPhase

/-- Where `handleConnection` is: in its loop, before and after a chunk, behind it, and in its deferred function. --/
inductive ConnPhase where
  | reading
  | acking
  | leaving
  | closing
  | closed
  deriving DecidableEq

structure Conn where
  ref : Nat
  id : TransferID
  keep : Bool
  phase : ConnPhase

structure Dispatch where
  ref : Nat
  id : TransferID
  data : Bytes
  isVariable : Bool
  acks : List Ack
  deriving DecidableEq

structure Taken where
  ref : Nat
  id : TransferID
  pkt : Packet

structure Receiver where
  objects : List State
  table : GoMap TransferID Nat
  calls : List IngestCall
  conns : List Conn
  dispatched : List Dispatch
  /-- The packets that were absorbed, the last one first. -/
  taken : List Taken
  down : Bool

inductive Action where
  | forward (pkt : Packet) (routed : Bool)
  | process (call : Nat)
  | dispatch (call : Nat)
  | delete (call : Nat)
  | connect (pkt : Packet)
  | chunk (conn : Nat) (pkt : Packet)
  /-- The acknowledgement of the chunk is written. -/
  | ack (conn : Nat)
  | eof (conn : Nat)
  /-- A packet is not verified, or an acknowledgement cannot be written. -/
  | fail (conn : Nat)
  | finish (conn : Nat)
  | close (conn : Nat)

/-- The part of `ingestForwardedFragment` under the lock: the state afterwards, and how the call goes on. --/
def State.ingest (st : State) (t : Config) (rs : ReedSolomon) (pkt : Packet) : Except Failure (State × CallPhase) :=
  if pkt.streaming then
    ((st.stream.getD (newStreamAssembler pkt)).add t rs pkt).map fun sa =>
      ({ st with stream := some sa }, if sa.done then .deleting else .done)
  else if st.delivered then .ok (st, .done)
  else
    let st' := { st with toBuffers := st.toBuffers.record pkt }
    if st'.enoughToReassembleLocked then
      match t.reassemble rs st'.toTransferState with
      | .ok data => .ok ({ st' with delivered := true }, .delivering data)
      | .error (.error _) => .ok (st', .done)
      | .error (.panic text) => .error (.panic text)
    else .ok (st', .done)

def State.processChunk (st : State) (t : Config) (rs : ReedSolomon) (pkt : Packet) : Except Failure State :=
  match st.stream with
  | some sa => (sa.add t rs pkt).map fun sa => { st with stream := some sa }
  | none => .ok { st with toBuffers := st.toBuffers.record pkt }

/-- What the call or the connection has absorbed of a packet, as an entry of the history. --/
def State.takes (st : State) (ref : Nat) (pkt : Packet) (absorbed : Bool) : List Taken :=
  if absorbed then [⟨ref, st.id, pkt⟩] else []

/-! ### What reassembling reserves -/

/-- What is allocated before a fragment is opened: the map of a reassembler, or without a sealer
    the list of the chunks. --/
structure Reserve where
  slots : Nat
  received : Nat
  /-- The reassembler of a coded transfer or block. -/
  coded : Option RSReassembler

def Config.reserves (t : Config) (st : TransferState) : List Reserve :=
  if 0 < st.scheme.dataShards then
    let d := st.scheme.dataShards.toNat
    let p := st.scheme.parityShards.toNat
    [⟨d + p, st.received.len,
      some (newRSReassembler (t.recipientOpener st.scheme) d p (intOfLen st.scheme.originalLen))⟩]
  else [⟨st.total.toNat, st.received.len, none⟩]

def StreamAssembler.reserves (sa : StreamAssembler) (t : Config) (pkt : Packet) : List Reserve :=
  let b := (sa.blocks.get? pkt.blockIndex).getD (newStreamBlock pkt)
  if sa.done || b.ready then []
  else
    let received := (b.toBuffers.record pkt).received.len
    if UInt32.ofNat sa.dataShards ≤ UInt32.ofNat received then
      let sealer := t.recipientOpener { hybridSealed := sa.hybridSealed, pq := sa.pq }
      [⟨sa.dataShards + sa.parityShards, received,
        some (newRSReassembler sealer sa.dataShards sa.parityShards b.blockLen)⟩]
    else []

def State.reserves (st : State) (t : Config) (pkt : Packet) : List Reserve :=
  if pkt.streaming then (st.stream.getD (newStreamAssembler pkt)).reserves t pkt
  else if st.delivered then []
  else
    let st' := { st with toBuffers := st.toBuffers.record pkt }
    if st'.enoughToReassembleLocked then t.reserves st'.toTransferState else []

namespace Receiver

def new : Receiver := ⟨[], ∅, [], [], [], [], false⟩

def setObject (w : Receiver) (ref : Nat) (st : State) : Receiver := { w with objects := w.objects.set ref st }

def setCall (w : Receiver) (c : Nat) (x : IngestCall) (phase : CallPhase) : Receiver :=
  { w with calls := w.calls.set c { x with phase } }

def setConn (w : Receiver) (c : Nat) (x : Conn) (phase : ConnPhase) : Receiver :=
  { w with conns := w.conns.set c { x with phase } }

def log (w : Receiver) (ref : Nat) (st : State) (data : Bytes) : Receiver :=
  { w with dispatched := w.dispatched ++ [⟨ref, st.id, data, st.scheme.isVariable, st.ackSenders⟩] }

def forward (w : Receiver) (pkt : Packet) (routed : Bool) : Receiver :=
  match w.table.get? pkt.id with
  | some ref => { w with calls := w.calls ++ [⟨pkt, ref, .loaded⟩] }
  | none =>
    { w with
      objects := w.objects ++ [newForwardedState pkt routed]
      table := w.table.set pkt.id w.objects.length
      calls := w.calls ++ [⟨pkt, w.objects.length, .loaded⟩] }

def process (w : Receiver) (t : Config) (rs : ReedSolomon) (c : Nat) (x : IngestCall) (st : State) : Receiver :=
  match st.ingest t rs x.pkt with
  | .ok (st', phase) =>
    { (w.setObject x.ref st').setCall c x phase with
      taken := st.takes x.ref x.pkt (!x.pkt.streaming && !st.delivered) ++ w.taken }
  | .error _ => { w with down := true }

/-- A resumable stream goes on with the state that is in the table. --/
def connect (w : Receiver) (pkt : Packet) : Receiver :=
  let keep := pkt.resumable && pkt.streaming
  match if keep then w.table.get? pkt.id else none with
  | some ref => { w with conns := w.conns ++ [⟨ref, pkt.id, keep, .reading⟩] }
  | none =>
    { w with
      objects := w.objects ++ [newDirectState pkt]
      table := w.table.set pkt.id w.objects.length
      conns := w.conns ++ [⟨w.objects.length, pkt.id, keep, .reading⟩] }

def chunk (w : Receiver) (t : Config) (rs : ReedSolomon) (c : Nat) (x : Conn) (st : State) (pkt : Packet) : Receiver :=
  match st.processChunk t rs pkt with
  | .ok st' =>
    { (w.setObject x.ref st').setConn c x .acking with
      taken := st.takes x.ref pkt st.stream.isNone ++ w.taken }
  | .error _ => { w with down := true }

/-- The loop ends with the transfer; for a stream it goes on until the sender closes. --/
def ack (w : Receiver) (c : Nat) (x : Conn) (st : State) : Receiver :=
  w.setConn c x (if st.stream.isNone && st.isTransferComplete then .leaving else .reading)

/-- Behind the loop: `deliver`, if the transfer is complete. A stream has delivered itself. --/
def finish (w : Receiver) (t : Config) (rs : ReedSolomon) (c : Nat) (x : Conn) (st : State) : Receiver :=
  if st.isTransferComplete && st.stream.isNone then
    match t.reassemble rs st.toTransferState with
    | .ok data => (w.log x.ref st data).setConn c x .closing
    | .error (.error _) => w.setConn c x .closing
    | .error (.panic _) => { w with down := true }
  else w.setConn c x .closing

def close (w : Receiver) (c : Nat) (x : Conn) (st : State) : Receiver :=
  let w' := w.setConn c x .closed
  if x.keep && !st.isTransferComplete then w' else { w' with table := w.table.delete x.id }

def act (t : Config) (rs : ReedSolomon) (w : Receiver) : Action → Option Receiver
  | .forward pkt routed => some (w.forward pkt routed)
  | .process c => w.calls[c]?.bind fun x =>
      if x.phase = .loaded then w.objects[x.ref]?.map fun st => w.process t rs c x st else none
  | .dispatch c => w.calls[c]?.bind fun x =>
      match x.phase with
      | .delivering data => w.objects[x.ref]?.map fun st => (w.log x.ref st data).setCall c x .deleting
      | _ => none
  | .delete c => w.calls[c]?.bind fun x =>
      if x.phase = .deleting then some { w.setCall c x .done with table := w.table.delete x.pkt.id } else none
  | .connect pkt => some (w.connect pkt)
  | .chunk c pkt => w.conns[c]?.bind fun x =>
      if x.phase = .reading then w.objects[x.ref]?.map fun st => w.chunk t rs c x st pkt else none
  | .ack c => w.conns[c]?.bind fun x =>
      if x.phase = .acking then w.objects[x.ref]?.map fun st => w.ack c x st else none
  | .eof c => w.conns[c]?.bind fun x => if x.phase = .reading then some (w.setConn c x .leaving) else none
  | .fail c => w.conns[c]?.bind fun x =>
      if x.phase = .reading ∨ x.phase = .acking then some (w.setConn c x .closing) else none
  | .finish c => w.conns[c]?.bind fun x =>
      if x.phase = .leaving then w.objects[x.ref]?.map fun st => w.finish t rs c x st else none
  | .close c => w.conns[c]?.bind fun x =>
      if x.phase = .closing then w.objects[x.ref]?.map fun st => w.close c x st else none

/-- The transfers for which a step creates an assembler, and so calls the factory of the sinks. --/
def opens (w : Receiver) : Action → List TransferID
  | .process c => (w.calls[c]?.bind fun x => w.objects[x.ref]?.map fun st =>
      if x.phase = .loaded ∧ x.pkt.streaming ∧ st.stream.isNone then [x.pkt.id] else []).getD []
  | .connect pkt =>
      let known := pkt.resumable && pkt.streaming && (w.table.get? pkt.id).isSome
      if pkt.streaming && !known then [pkt.id] else []
  | _ => []

def reserves (t : Config) (w : Receiver) : Action → List Reserve
  | .process c => (w.calls[c]?.bind fun x => w.objects[x.ref]?.map fun st =>
      if x.phase = .loaded then st.reserves t x.pkt else []).getD []
  | .chunk c pkt => (w.conns[c]?.bind fun x => w.objects[x.ref]?.map fun st =>
      if x.phase = .reading then st.stream.elim [] (·.reserves t pkt) else []).getD []
  | .finish c => (w.conns[c]?.bind fun x => w.objects[x.ref]?.map fun st =>
      if x.phase = .leaving ∧ st.isTransferComplete ∧ st.stream.isNone then t.reserves st.toTransferState
        else []).getD []
  | _ => []

/-- Nothing happens any more in a process that is gone. --/
def step (t : Config) (rs : ReedSolomon) (w : Receiver) (a : Action) : Option Receiver :=
  if w.down then none else w.act t rs a

end Receiver
end SyncSwarm.Transfer
