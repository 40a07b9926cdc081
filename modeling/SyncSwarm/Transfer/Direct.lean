import SyncSwarm.Transfer.Ingest

/-! A direct connection: the sender writes a packet and waits for its acknowledgement, and the receiving node runs
    `handleConnection`. What is written arrives, in order. -/

namespace SyncSwarm.Transfer
open Lib Protocol Fragment

/-- What a sender does over a connection. What follows the first packet may depend on the block that the receiver's
    first acknowledgement names; with the packets goes the error that ends them early, if there is one. --/
structure Program where
  init : Packet
  body : UInt32 → List Packet × Option String
  /-- The frame of a packet, with the destination and the signature, is within `maxFrameSize`. -/
  fits : Packet → Bool

def sendToNode (fits : Packet → Bool) (id : TransferID) (frags : List Fragment) (sourceNode : String) (sc : Scheme)
    (subChunkSize : Int) : Program where
  init := applyScheme { id, sourceNode, totalChunks := UInt32.ofNat frags.length } sc
  body _ := (packetsOf id sc sourceNode [] subChunkSize frags, none)
  fits

/-- What `streamBlocks` sends over a connection, from a block on. --/
def Config.streamPackets (t : Config) (rs : ReedSolomon) (id : TransferID) (content : Bytes)
    (sourceNode : String) (sc : Scheme)
    (sealer : Option Sealer) (subChunkSize : Int) (startBlock : UInt32) : List Packet × Option String :=
  let (frags, err) := t.streamBlocks rs content id sealer startBlock
  (packetsOf id sc sourceNode [] subChunkSize frags, err)

def Config.streamDirect (t : Config) (rs : ReedSolomon) (fits : Packet → Bool) (id : TransferID) (content : Bytes)
    (sourceNode : String) (sc : Scheme)
    (sealer : Option Sealer) (subChunkSize : Int) : Program where
  init := applyScheme { id, sourceNode } sc
  body _ := t.streamPackets rs id content sourceNode sc sealer subChunkSize 0
  fits

inductive Tx where
  | start
  | opening
  | writing (rest : List Packet) (err : Option String)
  | awaiting (rest : List Packet) (err : Option String)
  | returned (err : Option String)
  deriving DecidableEq

structure Session where
  tx : Tx
  /-- What was written and not read, from the sender and back; an acknowledgement is its `ChunkNumber`. -/
  wire : List Packet
  acks : List UInt32
  rx : Receiver
  /-- The place of the connection at the receiver. -/
  conn : Nat

/-- The block in the first acknowledgement of a connection. --/
def Receiver.resumePoint (w : Receiver) (c : Nat) (p : Packet) : UInt32 :=
  (w.conns[c]?.bind fun x => w.objects[x.ref]?.bind fun st =>
    if p.resumable then st.stream.map (·.nextFlush) else none).getD 0

namespace Session

inductive Move where
  /-- The sender: the first packet, its acknowledgement, a packet, its acknowledgement, and the end. -/
  | open
  | greeted
  | write
  | confirmed
  | return
  /-- The other side has closed the connection. -/
  | hungUp
  | accept
  | read
  | ack
  | eof
  | finish
  | close
  /-- The connection breaks, with or without what is on its way; then reading and writing fail on the other side too. -/
  | broken (lost : Bool)
  | fail
  deriving DecidableEq

def Move.reliable : Move → Bool
  | .broken _ | .fail => false
  | _ => true

def new (rx : Receiver) : Session := ⟨.start, [], [], rx, rx.conns.length⟩

def rxClosed (s : Session) : Bool := (s.rx.conns[s.conn]?.map fun x => decide (x.phase = .closed)).getD false

def txClosed : Tx → Bool
  | .returned _ => true
  | _ => false

def receive (s : Session) (t : Config) (rs : ReedSolomon) (a : Action) (wire : List Packet) (acks : List UInt32) :
    Option Session :=
  (s.rx.step t rs a).map fun rx => { s with rx, wire, acks }

def step (prog : Program) (t : Config) (rs : ReedSolomon) (s : Session) : Move → Option Session
  | .open => match s.tx with
    | .start => some { s with tx := .opening, wire := s.wire ++ [prog.init] }
    | _ => none
  | .greeted => match s.tx, s.acks with
    | .opening, n :: acks => some { s with tx := .writing (prog.body n).1 (prog.body n).2, acks }
    | _, _ => none
  | .write => match s.tx with
    | .writing (p :: rest) err => some { s with tx := .awaiting rest err, wire := s.wire ++ [p] }
    | _ => none
  | .confirmed => match s.tx, s.acks with
    | .awaiting rest err, _ :: acks => some { s with tx := .writing rest err, acks }
    | _, _ => none
  | .return => match s.tx with
    | .writing [] err => some { s with tx := .returned err }
    | _ => none
  | .hungUp => match s.tx with
    | .opening | .awaiting _ _ =>
      if s.rxClosed ∧ s.acks = [] then some
        { s with tx := .returned (some "failed to receive acknowledgment") } else none
    | .writing (_ :: _) _ =>
      if s.rxClosed then some { s with tx := .returned (some "failed to send fragment") } else none
    | _ => none
  | .accept => match s.wire with
    | p :: wire =>
      if s.rx.conns.length = s.conn then
        (s.receive t rs (.connect p) wire s.acks).map fun s' =>
          { s' with acks := s'.acks ++ [s'.rx.resumePoint s.conn p] }
      else none
    | [] => none
  | .read => match s.wire with
    | p :: wire => s.receive t rs (if prog.fits p then .chunk s.conn p else .eof s.conn) wire s.acks
    | [] => none
  | .ack => s.receive t rs (.ack s.conn) s.wire (s.acks ++ [0])
  | .eof => if s.wire = [] ∧ txClosed s.tx then s.receive t rs (.eof s.conn) s.wire s.acks else none
  | .finish => s.receive t rs (.finish s.conn) s.wire s.acks
  | .close => s.receive t rs (.close s.conn) s.wire s.acks
  | .broken lost =>
    if txClosed s.tx then none
    else some { s with tx := .returned (some "connection lost"), wire := if lost then [] else s.wire }
  | .fail => if txClosed s.tx then s.receive t rs (.fail s.conn) s.wire s.acks else none

end Session

end SyncSwarm.Transfer
