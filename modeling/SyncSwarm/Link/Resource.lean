import SyncSwarm.Lib.Bytes
import SyncSwarm.Lib.Chunks
import SyncSwarm.Lib.Lists
import SyncSwarm.Lib.Map

/-! The resource layer (`internal/link/resource.go`): one reliable, ordered transfer over a link. Functions take the
    time and return the frames that they send, in order. A handler is one step: a channel may hold back what the
    source sends after it has released the lock. -/

namespace SyncSwarm.Link
open Lib

abbrev ResID := FixedBytes 16

abbrev Hash := FixedBytes 32

def resTagAdv : UInt8 := 0x01
def resTagPart : UInt8 := 0x02
def resTagAck : UInt8 := 0x03
def resTagDone : UInt8 := 0x04

def resIDLen : Nat := 16
def maxResourceParts : Nat := 1 <<< 16
def maxResourcePartSize : Nat := 1 <<< 20
def maxResourceBytes : Nat := 256 <<< 20
def resHdrAdv : Nat := 1 + resIDLen + 4 + 4 + 32
def defaultResWindow : Nat := 32
def maxAckBitmapBytes : Nat := 32
def maxInflightMessages : Nat := 256
def maxFinished : Nat := 1024

def defaultResRTO : Int := 250 * 1000000
def finishedTTL : Int := 2 * 60 * 1000000000

/-! ### Encoding helpers -/

def encodeAdv (id : ResID) (total partSize : UInt32) (whole : Hash) : Bytes :=
  resTagAdv :: (id.val ++ (be32 total ++ (be32 partSize ++ whole.val)))

def encodePart (id : ResID) (index : UInt32) (data : Bytes) : Bytes :=
  resTagPart :: (id.val ++ (be32 index ++ data))

def encodeAck (id : ResID) (base : UInt32) (bitmap : Bytes) : Bytes :=
  resTagAck :: (id.val ++ (be32 base ++ (UInt8.ofNat bitmap.length :: bitmap)))

def encodeDone (id : ResID) : Bytes := resTagDone :: id.val

def frameID (b : Bytes) : ResID := FixedBytes.copy 16 (b.drop 1)

/-- The `uint32` that starts at offset `off` behind the identifier, as an `int`. --/
def frameU32 (b : Bytes) (off : Nat) : Nat := (u32 (b.drop (1 + resIDLen + off))).toNat

/-! ### Sender -/

structure ResourceSender where
  id : ResID
  parts : List Bytes
  whole : Hash
  window : Nat
  rto : Int
  /-- The lowest part that is not acknowledged. --/
  base : Nat
  acked : List Bool
  /-- The time of the last sending of each part. --/
  sentAt : List Int
  /-- The end of the parts that were ever sent. --/
  sentHigh : Nat
  finished : Bool
  /-- What `finish` put into the channel that `Wait` reads: `nil`, or an error's text. --/
  done : Option (Except String Unit)
  window_pos : 0 < window
  acked_len : acked.length = parts.length
  sentAt_len : sentAt.length = parts.length
  sentHigh_le : sentHigh ≤ parts.length

def resourceParts (data : Bytes) (partSize : Nat) : List Bytes :=
  if data.length = 0 then [[]] else chunks partSize data

def maxPartLen (parts : List Bytes) : Nat := parts.foldl (fun m p => max m p.length) 0

/-- `NewResourceSender`; the identifier that the source draws at random is an argument. --/
def newResourceSender (sha256 : Bytes → Hash) (id : ResID) (data : Bytes) (partSize window rto : Int) :
    Except String ResourceSender :=
  if partSize ≤ 0 then .error "resource: partSize must be > 0" else
  let parts := resourceParts data partSize.toNat
  .ok {
    id, parts
    whole := sha256 data
    window := if window ≤ 0 then defaultResWindow else window.toNat
    rto := if rto ≤ 0 then defaultResRTO else rto
    base := 0
    acked := List.replicate parts.length false
    sentAt := List.replicate parts.length 0
    sentHigh := 0
    finished := false
    done := none
    window_pos := by split <;> [decide; omega]
    acked_len := by simp
    sentAt_len := by simp
    sentHigh_le := Nat.zero_le _ }

namespace ResourceSender

/-- The sum of two `int`s that are not negative wraps around at 64 bits. --/
def wrapInt (sum : Nat) : Int := if sum < 9223372036854775808 then sum else sum - 18446744073709551616

def windowLimit (s : ResourceSender) (top : Nat) : Nat := min (wrapInt (s.base + s.window)).toNat top

def partFrame (s : ResourceSender) (i : Nat) : Bytes := encodePart s.id (UInt32.ofNat i) (s.parts.getD i [])

def advFrame (s : ResourceSender) : Bytes :=
  encodeAdv s.id (UInt32.ofNat s.parts.length) (UInt32.ofNat (maxPartLen s.parts)) s.whole

def unsentInWindow (s : ResourceSender) : List Nat :=
  List.range' s.sentHigh (s.windowLimit s.parts.length - s.sentHigh)

def fillWindowLocked (s : ResourceSender) (now : Int) : ResourceSender × List Bytes :=
  ({ s with
      sentAt := setAll s.sentAt s.unsentInWindow now
      sentHigh := max s.sentHigh (s.windowLimit s.parts.length)
      sentAt_len := by simp [s.sentAt_len]
      sentHigh_le := Nat.max_le.mpr ⟨s.sentHigh_le, Nat.min_le_right _ _⟩ },
    s.unsentInWindow.map s.partFrame)

/-- The parts in the window that were sent, are not acknowledged, and were last sent one RTO ago or earlier. --/
def overdue (s : ResourceSender) (now : Int) : List Nat :=
  (List.range' s.base (s.windowLimit s.sentHigh - s.base)).filter fun i =>
    !s.acked.getD i false && decide (s.rto ≤ now - s.sentAt.getD i 0)

def dueRetransmitsLocked (s : ResourceSender) (now : Int) : ResourceSender × List Bytes :=
  ({ s with
      sentAt := setAll s.sentAt (s.overdue now) now
      sentAt_len := by simp [s.sentAt_len] },
    (s.overdue now).map s.partFrame)

def start (s : ResourceSender) (now : Int) : ResourceSender × List Bytes :=
  let (s', frames) := s.fillWindowLocked now
  (s', s.advFrame :: frames)

def finish (s : ResourceSender) (err : Except String Unit) : ResourceSender :=
  if s.finished then s else { s with finished := true, done := some err }

def waitTimeout (s : ResourceSender) : ResourceSender := s.finish (.error "resource: send timed out")

def bitSet (bitmap : Bytes) (i : Nat) : Bool := (bitmap.getD (i / 8) 0).toNat.testBit (i % 8)

/-- The parts that an acknowledgement with this base and bitmap marks: those below the base, and those
    of the set bits. --/
def marked (s : ResourceSender) (base : Nat) (bitmap : Bytes) : List Nat :=
  List.range (min base s.acked.length) ++
    (((List.range (bitmap.length * 8)).filter (bitSet bitmap)).map (base + ·)).filter (· < s.acked.length)

def mark (s : ResourceSender) (base : Nat) (bitmap : Bytes) : ResourceSender :=
  { s with
    acked := setAll s.acked (s.marked base bitmap) true
    base := max s.base base
    acked_len := by simp [s.acked_len] }

def onAck (s : ResourceSender) (frame : Bytes) (now : Int) : ResourceSender × List Bytes :=
  if frame.length < 1 + resIDLen + 4 + 1 then (s, []) else
  let base := frameU32 frame 0
  let bmLen := (frame.getD (1 + resIDLen + 4) 0).toNat
  if frame.length < 1 + resIDLen + 5 + bmLen then (s, []) else
  let bitmap := (frame.drop (1 + resIDLen + 5)).take bmLen
  let s := s.mark base bitmap
  if s.parts.length ≤ s.base then (s.finish (.ok ()), []) else s.fillWindowLocked now

def feed (s : ResourceSender) (frame : Bytes) (now : Int) : ResourceSender × List Bytes :=
  if frame.length < 1 + resIDLen ∨ frameID frame ≠ s.id then (s, [])
  else if frame.head? = some resTagAck then s.onAck frame now
  else if frame.head? = some resTagDone then (s.finish (.ok ()), [])
  else (s, [])

/-- One round of `retransmitLoop`: the overdue parts, then the window. --/
def tick (s : ResourceSender) (now : Int) : ResourceSender × List Bytes :=
  let (s, due) := s.dueRetransmitsLocked now
  let (s, fresh) := s.fillWindowLocked now
  (s, due ++ fresh)

end ResourceSender

/-! ### Receiver -/

structure RecvState where
  total : Nat
  whole : Hash
  parts : List Bytes
  got : List Bool
  count : Nat
  /-- The lowest part that was not received. --/
  base : Nat
  complete : Bool
  parts_len : parts.length = total
  got_len : got.length = total

namespace RecvState

def new (total : Nat) (whole : Hash) : RecvState where
  total := total
  whole := whole
  parts := List.replicate total []
  got := List.replicate total false
  count := 0
  base := 0
  complete := false
  parts_len := List.length_replicate
  got_len := List.length_replicate

def store (st : RecvState) (idx : Nat) (data : Bytes) : RecvState :=
  if st.got.getD idx false then st else
  { st with
    got := st.got.set idx true
    parts := st.parts.set idx data
    count := st.count + 1
    base := nextGap (st.got.set idx true) st.base
    parts_len := by simp [st.parts_len]
    got_len := by simp [st.got_len] }

def bitmapBytes (st : RecvState) : Nat := min ((st.total - st.base + 7) / 8) maxAckBitmapBytes

/-- Byte `j` of the bitmap: bit `k` stands for part `base + 8 * j + k`. --/
def bitmapByte (st : RecvState) (j : Nat) : UInt8 :=
  UInt8.ofNat (Nat.ofBits fun k : Fin 8 => st.got.getD (st.base + (8 * j + k)) false)

def ackBitmapLocked (st : RecvState) : Bytes :=
  ((List.range st.bitmapBytes).map st.bitmapByte).rdropWhile (· == 0)

def assembleLocked (st : RecvState) : Bytes := st.parts.flatten

end RecvState

structure ResourceReceiver where
  byID : GoMap ResID RecvState
  /-- The number of resources that are buffered at the same time, at most. --/
  limit : Nat
  /-- The resources that were completed lately, with the time. --/
  finished : GoMap ResID Int

def newResourceReceiver : ResourceReceiver := ⟨∅, maxInflightMessages, ∅⟩

/-- What a call of `Feed` does besides changing the receiver: the frames it sends and the calls of `onComplete`. --/
structure Fed where
  receiver : ResourceReceiver
  sent : List Bytes
  completed : List (ResID × Bytes)

namespace ResourceReceiver

/-- The limits that an advertisement is checked against before anything is allocated for it. --/
def advAllowed (total partSize : Nat) : Bool :=
  !(total == 0 || decide (maxResourceParts < total)) && !decide (maxResourcePartSize < partSize) &&
    !(decide (0 < partSize) && decide (maxResourceBytes / partSize < total))

def advertise (r : ResourceReceiver) (id : ResID) (total partSize : Nat) (whole : Hash) : ResourceReceiver :=
  if !advAllowed total partSize then r else
  match r.byID.get? id with
  | some _ => r
  | none =>
    if r.limit ≤ r.byID.len then r
    else { r with byID := r.byID.set id (RecvState.new total whole) }

def onAdv (r : ResourceReceiver) (frame : Bytes) : ResourceReceiver :=
  if frame.length < resHdrAdv then r
  else r.advertise (frameID frame) (frameU32 frame 0) (frameU32 frame 4)
    (FixedBytes.copy 32 (frame.drop (1 + resIDLen + 8)))

/-- Drops entries of the full map: those that expired, then arbitrary ones until there is room. The
    order in which the source ranges over the map the second time is an argument. --/
def evict (finished : GoMap ResID Int) (now : Int) (order : List ResID) : GoMap ResID Int :=
  if maxFinished ≤ finished.len then
    let fresh := finished.entries.foldl (fun m e => if finishedTTL ≤ now - e.2 then m.delete e.1 else m) finished
    order.foldl (fun m k => if m.len < maxFinished then m else m.delete k) fresh
  else finished

def rememberFinishedLocked (r : ResourceReceiver) (id : ResID) (now : Int) (order : List ResID) : ResourceReceiver :=
  { r with finished := (evict r.finished now order).set id now }

/-- The rest of `onPart` once the part is stored: the acknowledgement, and the completion if all parts
    are there and the data has the advertised hash. --/
def acknowledge (sha256 : Bytes → Hash) (r : ResourceReceiver) (id : ResID) (st : RecvState) (now : Int)
    (order : List ResID) : Fed :=
  let ackFrame := encodeAck id (UInt32.ofNat st.base) st.ackBitmapLocked
  if st.count = st.total ∧ !st.complete ∧ sha256 st.assembleLocked = st.whole then
    { receiver := { r with byID := r.byID.delete id }.rememberFinishedLocked id now order
      sent := [ackFrame, encodeDone id]
      completed := [(id, st.assembleLocked)] }
  else
    { receiver := { r with byID := r.byID.set id st }, sent := [ackFrame], completed := [] }

def receivePart (sha256 : Bytes → Hash) (r : ResourceReceiver) (id : ResID) (idx : Nat) (data : Bytes) (now : Int)
    (order : List ResID) : Fed :=
  match r.byID.get? id with
  | none =>
    -- A retransmission whose acknowledgement was lost is answered again.
    if (r.finished.get? id).isSome then ⟨r, [encodeDone id], []⟩ else ⟨r, [], []⟩
  | some st =>
    if st.total ≤ idx then ⟨r, [], []⟩ else r.acknowledge sha256 id (st.store idx data) now order

def onPart (sha256 : Bytes → Hash) (r : ResourceReceiver) (frame : Bytes) (now : Int) (order : List ResID) : Fed :=
  if frame.length < 1 + resIDLen + 4 then ⟨r, [], []⟩
  else r.receivePart sha256 (frameID frame) (frameU32 frame 0) (frame.drop (1 + resIDLen + 4)) now order

def feed (sha256 : Bytes → Hash) (r : ResourceReceiver) (frame : Bytes) (now : Int) (order : List ResID) : Fed :=
  if frame.length < 1 + resIDLen then ⟨r, [], []⟩
  else if frame.head? = some resTagAdv then ⟨r.onAdv frame, [], []⟩
  else if frame.head? = some resTagPart then r.onPart sha256 frame now order
  else ⟨r, [], []⟩

end ResourceReceiver
end SyncSwarm.Link
