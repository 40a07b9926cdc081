import SyncSwarm.Lib.Bytes
import SyncSwarm.Lib.Map
import SyncSwarm.Lib.System

/-! Links: encrypted sessions that two managers agree on by a request and a proof. A step is what one goroutine does
    between two points at which another one can see or change what it uses. -/

set_option linter.dupNamespace false

namespace SyncSwarm.Link
open Lib

abbrev LinkID := FixedBytes 16

def hkdfInfo : String := "syncswarm-link-v1"

/-- The cryptography of the standard library. Random bytes are arguments of what consumes them. --/
structure Crypto where
  /-- The public key of an X25519 private key. -/
  publicKey : Bytes → Bytes
  /-- `PrivateKey.ECDH`: the private key, then the other side's public key. -/
  ecdh : Bytes → Bytes → Option Bytes
  /-- `ed25519.Sign`: the private key, then the message. -/
  sign : Bytes → Bytes → Bytes
  /-- `ed25519.Verify`: the public key, the message, the signature. -/
  verify : Bytes → Bytes → Bytes → Bool
  /-- `hkdf.Key` with SHA-256: the secret, the salt, the info and the length. -/
  hkdf : Bytes → Bytes → String → Nat → Bytes
  /-- AES-256-GCM without associated data: the key, the nonce, the plaintext. -/
  gcmSeal : Bytes → Bytes → Bytes → Bytes
  gcmOpen : Bytes → Bytes → Bytes → Option Bytes

structure RequestPayload where
  linkID : LinkID
  ephPub : Bytes
  deriving DecidableEq

structure ProofPayload where
  linkID : LinkID
  ephPub : Bytes
  signature : Bytes
  deriving DecidableEq

structure DataPayload where
  linkID : LinkID
  nonce : Bytes
  cipher : Bytes
  deriving DecidableEq

/-- A packet of one of the three link types, with its payload decoded. --/
inductive LinkPacket where
  | request (req : RequestPayload)
  | proof (pr : ProofPayload)
  | data (d : DataPayload)
  deriving DecidableEq

def deriveAEAD (C : Crypto) (secret : Bytes) (linkID : LinkID) : Bytes := C.hkdf secret linkID.val hkdfInfo 32

def proofTranscript (linkID : LinkID) (ephPub : Bytes) : Bytes := linkID.val ++ ephPub

def newPublicKey (b : Bytes) : Option Bytes := if b.length = 32 then some b else none

/-- The key that the holder of the ephemeral key `eph` shares with the holder of `ephPub`. --/
def sharedAEAD (C : Crypto) (eph ephPub : Bytes) (linkID : LinkID) : Option Bytes :=
  ((newPublicKey ephPub).bind (C.ecdh eph)).map (deriveAEAD C · linkID)

inductive PeerKey where
  | key (destSignPub : Bytes)
  | addr (a : String)
  deriving DecidableEq

def peerKey (destSignPub : Bytes) (addr : String) : PeerKey :=
  if destSignPub.length > 0 then .key destSignPub else .addr addr

abbrev Callback := Nat

/-- What never changes about a link: its manager is that of the host `mgr`. --/
structure Session (η : Type) where
  id : LinkID
  aead : Bytes
  initiator : Bool
  mgr : η
  deriving DecidableEq

structure Link (η : Type) extends Session η where
  peerAddr : String
  peerKey : Option PeerKey
  sendCtr : UInt64
  onData : Option Callback

namespace Link
variable {η : Type}

def direction (initiator : Bool) : UInt8 := if initiator then 1 else 0

def nonce (initiator : Bool) (ctr : UInt64) : Bytes := direction initiator :: 0 :: 0 :: 0 :: be64 ctr

def send (C : Crypto) (l : Link η) (data : Bytes) : Link η × DataPayload :=
  let ctr := l.sendCtr + 1
  let nonce := nonce l.initiator ctr
  ({ l with sendCtr := ctr }, ⟨l.id, nonce, C.gcmSeal l.aead nonce data⟩)

end Link

/-- The arguments of a call of `Dial`, and the two values that it drew. --/
structure Call (η : Type) where
  host : η
  addr : String
  destSignPub : Bytes
  id : LinkID
  eph : Bytes
  deriving DecidableEq

/-- Where a call of `Dial` stands. Links are named by their place in the list of all links. --/
inductive DialPhase where
  | sending
  | waiting
  /-- On the way out: the entry in `pending` is still to be deleted. -/
  | leaving (l : Option Nat)
  | returned (l : Option Nat)
  deriving DecidableEq

structure Dial (η : Type) extends Call η where
  result : Option Nat
  phase : DialPhase
  deriving DecidableEq

/-- `handleRequest` up to the proof: the key, and the proof. --/
def answer (C : Crypto) (self eph : Bytes) (req : RequestPayload) : Option (Bytes × ProofPayload) :=
  (sharedAEAD C eph req.ephPub req.linkID).map fun aead =>
    (aead, ⟨req.linkID, C.publicKey eph, C.sign self (proofTranscript req.linkID (C.publicKey eph))⟩)

/-- `handleProof` from the check of the signature on: the key. --/
def accept (C : Crypto) (destSignPub eph : Bytes) (pr : ProofPayload) : Option Bytes :=
  if C.verify destSignPub (proofTranscript pr.linkID pr.ephPub) pr.signature then
    sharedAEAD C eph pr.ephPub pr.linkID
  else none

structure Manager where
  self : Bytes
  links : GoMap LinkID Nat
  /-- Dials, by their place in the list of all dials. -/
  pending : GoMap LinkID Nat
  byPeer : GoMap PeerKey Nat
  /-- Whether `OnInboundLink` has registered a callback. -/
  onLink : Bool

def newManager (self : Bytes) : Manager := ⟨self, ∅, ∅, ∅, false⟩

/-- What a handler or a `DialCached` at work does next. --/
inductive Thread (η : Type) where
  /-- Enter the link into the table; `handleProof` has the dial it answers. -/
  | store (l : Nat) (dial : Option Nat)
  /-- Hand a link that another host opened to the callback. -/
  | notify (l : Nat)
  /-- Put the link into the channel of the dial, if that is empty. -/
  | push (l dial : Nat)
  /-- Open the data on the link that the table held. -/
  | opening (l : Nat) (d : DataPayload)
  /-- Take the link that the dial returns into the cache. -/
  | cache (key : PeerKey) (dial : Nat)
  | done
  deriving DecidableEq

structure Sent (η : Type) where
  src : η
  addr : String
  packet : LinkPacket
  deriving DecidableEq

structure Sending where
  link : Nat
  data : Bytes
  packet : DataPayload
  deriving DecidableEq

structure Handed where
  link : Nat
  callback : Callback
  data : Bytes
  deriving DecidableEq

structure World (η : Type) where
  managers : η → Manager
  heap : List (Link η)
  dials : List (Dial η)
  threads : List (Thread η)
  wire : List (Sent η)
  sends : List Sending
  handed : List Handed
  /-- The links given to the callback of `OnInboundLink`. -/
  inbound : List Nat
  closed : List Nat

inductive Action (η : Type) where
  | dial (h : η) (addr : String) (destSignPub : Bytes) (id : LinkID) (eph : Bytes)
  | dialCached (h : η) (addr : String) (destSignPub : Bytes) (id : LinkID) (eph : Bytes)
  /-- `Dial` sends its request; `ok` is whether the send function accepts the frame. -/
  | sendRequest (d : Nat) (ok : Bool)
  /-- `Dial` takes the link out of its channel. -/
  | receive (d : Nat)
  | timeout (d : Nat)
  /-- The deferred function of `Dial` runs, and `Dial` returns. -/
  | leave (d : Nat)
  | deliverRequest (h : η) (addr : String) (req : RequestPayload) (eph : Bytes) (ok : Bool)
  | deliverProof (h : η) (pr : ProofPayload)
  | deliverData (h : η) (d : DataPayload)
  /-- The thread at place `t` does what it does next. -/
  | resume (t : Nat)
  | onInboundLink (h : η)
  | onData (l : Nat) (cb : Callback)
  | send (l : Nat) (data : Bytes) (ok : Bool)
  | close (l : Nat)

namespace World
variable {η : Type} [DecidableEq η] (C : Crypto) (w : World η)

def setManager (h : η) (f : Manager → Manager) : World η :=
  { w with managers := Function.update w.managers h (f (w.managers h)) }

def sessions : List (Session η) := w.heap.map Link.toSession

def calls : List (Call η) := w.dials.map Dial.toCall

def held (l : Nat) : Bool := w.dials.any (fun d => d.phase = .returned (some l)) || w.inbound.contains l

/-- The link joins the list of all links, and its handler goes on to enter it into the table. --/
def establish (s : Session η) (peerAddr : String) (dial : Option Nat) : World η :=
  { w with heap := w.heap ++ [⟨s, peerAddr, none, 0, none⟩], threads := w.threads ++ [.store w.heap.length dial] }

def dial (c : Call η) : World η :=
  { w.setManager c.host fun m => { m with pending := m.pending.set c.id w.dials.length } with
    dials := w.dials ++ [⟨c, none, .sending⟩] }

def setDial (d : Nat) (x : Dial η) : World η := { w with dials := w.dials.set d x }

def setLink (l : Nat) (x : Link η) : World η := { w with heap := w.heap.set l x }

def closeLink (l : Nat) (x : Link η) : World η :=
  { w.setManager x.mgr fun m =>
      { m with
        links := m.links.delete x.id
        byPeer := match x.peerKey with
          | some key => if m.byPeer.get? key = some l then m.byPeer.delete key else m.byPeer
          | none => m.byPeer } with
    closed := w.closed ++ [l] }

/-- The second half of `DialCached`, after `Dial` returned the link `l`. --/
def cacheLink (key : PeerKey) (l : Nat) (x : Link η) : World η :=
  -- A concurrent dial came first: the link it cached stays, and this one is closed.
  if ((w.managers x.mgr).byPeer.get? key).isSome then w.closeLink l x
  else (w.setLink l { x with peerKey := some key }).setManager x.mgr fun m => { m with byPeer := m.byPeer.set key l }

/-- The next step of a thread; nothing while a `DialCached` waits for its `Dial`. --/
def resume (C : Crypto) (w : World η) (t : Nat) : Thread η → Option (World η)
  | .store l dial => w.heap[l]?.map fun x =>
      { w.setManager x.mgr fun m => { m with links := m.links.set x.id l } with
        threads := w.threads.set t (match dial with
          | some d => .push l d
          | none => .notify l) }
  | .notify l => w.heap[l]?.map fun x =>
      { w with
        threads := w.threads.set t .done
        inbound := if (w.managers x.mgr).onLink then w.inbound ++ [l] else w.inbound }
  | .push l d => w.dials[d]?.map fun x =>
      { w.setDial d { x with result := x.result.or (some l) } with threads := w.threads.set t .done }
  | .opening l d => w.heap[l]?.map fun x =>
      { w with
        threads := w.threads.set t .done
        handed := match C.gcmOpen x.aead d.nonce d.cipher, x.onData with
          | some pt, some cb => w.handed ++ [⟨l, cb, pt⟩]
          | _, _ => w.handed }
  | .cache key d =>
      match w.dials[d]? with
      | some ⟨_, _, .returned (some l)⟩ => w.heap[l]?.map fun x =>
          { w with threads := w.threads.set t .done }.cacheLink key l x
      | some ⟨_, _, .returned none⟩ => some { w with threads := w.threads.set t .done }
      | _ => none
  | .done => none

def step (w : World η) : Action η → Option (World η)
  | .dial h addr destSignPub id eph => some (w.dial ⟨h, addr, destSignPub, id, eph⟩)
  | .dialCached h addr destSignPub id eph =>
      let key := peerKey destSignPub addr
      if ((w.managers h).byPeer.get? key).isSome then some w
      else some { w.dial ⟨h, addr, destSignPub, id, eph⟩ with threads := w.threads ++ [.cache key w.dials.length] }
  | .sendRequest d ok =>
      match w.dials[d]? with
      | some ⟨c, result, .sending⟩ =>
        if ok then
          some { w.setDial d ⟨c, result, .waiting⟩ with
            wire := w.wire ++ [⟨c.host, c.addr, .request ⟨c.id, C.publicKey c.eph⟩⟩] }
        else some (w.setDial d ⟨c, result, .leaving none⟩)
      | _ => none
  | .receive d =>
      match w.dials[d]? with
      | some ⟨c, some l, .waiting⟩ => w.heap[l]?.map fun x =>
          (w.setDial d ⟨c, none, .leaving (some l)⟩).setLink l { x with peerAddr := c.addr }
      | _ => none
  | .timeout d =>
      match w.dials[d]? with
      | some ⟨c, result, .waiting⟩ => some (w.setDial d ⟨c, result, .leaving none⟩)
      | _ => none
  | .leave d =>
      match w.dials[d]? with
      | some ⟨c, result, .leaving l⟩ =>
        some ((w.setDial d ⟨c, result, .returned l⟩).setManager c.host fun m =>
          { m with pending := m.pending.delete c.id })
      | _ => none
  | .deliverRequest h addr req eph ok =>
      match answer C (w.managers h).self eph req with
      | some (aead, pr) =>
        if ok then
          some { w.establish ⟨req.linkID, aead, false, h⟩ addr none with wire := w.wire ++ [⟨h, addr, .proof pr⟩] }
        else some w
      | none => some w
  | .deliverProof h pr =>
      match (w.managers h).pending.get? pr.linkID with
      | some d => w.dials[d]?.map fun x =>
          match accept C x.destSignPub x.eph pr with
          | some aead => w.establish ⟨pr.linkID, aead, true, h⟩ "" (some d)
          | none => w
      | none => some w
  | .deliverData h d =>
      match (w.managers h).links.get? d.linkID with
      | some l => some { w with threads := w.threads ++ [.opening l d] }
      | none => some w
  | .resume t => w.threads[t]?.bind (w.resume C t)
  | .onInboundLink h => some (w.setManager h fun m => { m with onLink := true })
  | .onData l cb => if w.held l then w.heap[l]?.map fun x => w.setLink l { x with onData := some cb } else none
  | .send l data ok =>
      if w.held l then w.heap[l]?.map fun x =>
        let (x', pkt) := x.send C data
        let w' := { w.setLink l x' with sends := w.sends ++ [⟨l, data, pkt⟩] }
        if ok then { w' with wire := w.wire ++ [⟨x.mgr, x.peerAddr, .data pkt⟩] } else w'
      else none
  | .close l => if w.held l then w.heap[l]?.map fun x => w.closeLink l x else none

end World

def World.new {η : Type} (self : η → Bytes) : World η :=
  ⟨fun h => newManager (self h), [], [], [], [], [], [], [], []⟩

inductive Party where
  | one
  | two
  deriving DecidableEq

def Party.other : Party → Party
  | .one => .two
  | .two => .one

end SyncSwarm.Link
