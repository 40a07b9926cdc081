import SyncSwarm.Theorems.Ingest.Inbound
import SyncSwarm.Theorems.Transfer.Stream

/-! Whose packets make up what a connection delivers, and to whom a stream belongs that was interrupted. -/

namespace SyncSwarm.Transfer.Inbound
open Lib Protocol Fragment List Option

variable {S : Signatures} {self : String} {t : Config} {rs : ReedSolomon} {n m : Inbound} {e : Event}

/-! ### Direct transfers -/

/-- What comes over a connection is signed with the key of its first packet and is for its transfer; a stream
    goes on with a state that a connection with the same key created; and no forwarded packet is for a
    transfer of a connection. --/
def Authored (S : Signatures) (n : Inbound) : Event → Prop
  | .accept p => (p.resumable && p.streaming) = true → ∀ r ∈ n.rx.table.get? p.id, ∀ h ∈ n.histories[r]?,
      h.creator.map (·.signerKey) = some p.signerKey
  | .read c p => p.verify S = true → ∀ init ∈ n.inits[c]?, p.signerKey = init.signerKey ∧ p.id = init.id
  | .other (.forward pkt _) => ∀ r ∈ n.rx.table.get? pkt.id, ∀ h ∈ n.histories[r]?, h.creator = none
  | .other _ => True

/-- The packets have one signer and one transfer ID. --/
def SameKey (p q : SignedPacket) : Prop := p.signerKey = q.signerKey ∧ p.id = q.id

theorem Authored.bound (h : n.Authored S e) (hrec : n.Recorded S t rs) :
    n.Bound S (fun _ => True) SameKey (fun p q => SameKey q p) e := by
  cases e with
  | accept p =>
    intro hkeep r hr hist hh first hfirst _
    have hkey := h hkeep r hr hist hh
    rw [hfirst] at hkey
    refine ⟨Option.some.inj hkey, ?_⟩
    exact mem_unique (hrec.of hh hfirst) (hrec.refs.entry hr)
  | read c p => exact h
  | other a =>
    cases a with
    | forward pkt routed =>
      intro r hr hist hh first hfirst _
      exact absurd ((h r hr hist hh).symm.trans hfirst) nofun
    | _ => exact trivial

def Direct (n : Inbound) : Prop := ∀ x ∈ n.rx.conns, ∃ hist p, n.histories[x.ref]? = some hist ∧ hist.creator = some p

theorem Direct.step (h : n.Direct) (hrec : n.Recorded S t rs) (hs : Steps S self t rs n e m) (hauth : n.Authored S e) :
    m.Direct := by
  intro x hx
  have hrec' := hs.recorded hrec
  obtain ⟨c, hc⟩ := mem_iff_getElem?.mp hx
  have hinit : c < m.inits.length := hrec'.inits ▸ lt_of_getElem? hc
  have hlt : x.ref < m.histories.length := hrec'.histories ▸ (hrec'.refs.conn x hx).lt
  obtain ⟨hist, hhist⟩ : ∃ hist, m.histories[x.ref]? = some hist := ⟨_, getElem?_eq_getElem hlt⟩
  have hconn := hs.conn_init hrec hc (getElem?_eq_getElem hinit)
  refine ⟨hist, ?_⟩
  rcases hs.history hhist with ⟨h₀, hh, hg⟩ | ⟨href, -, ⟨-, pkt, routed, he⟩ | ⟨p, -, -, hp, -⟩⟩
  · rw [hg.creator]
    rcases hconn with ⟨y, hy, hyref, -⟩ | ⟨rfl, ⟨hkeep, htable⟩ | hlen⟩
    · obtain ⟨h₁, p, hh₁, hp⟩ := h y (mem_of_getElem? hy)
      cases hh.symm.trans (hyref ▸ hh₁)
      exact ⟨p, hhist, hp⟩
    · obtain ⟨p, hp, -⟩ := map_eq_some_iff.mp (hauth hkeep x.ref htable h₀ hh)
      exact ⟨p, hhist, hp⟩
    · exact absurd (hlen ▸ lt_of_getElem? hh) (Nat.lt_irrefl _)
  · rcases hconn with ⟨y, hy, hyref, -⟩ | ⟨heq, -⟩
    · have hylt := (hrec.refs.conn y (mem_of_getElem? hy)).lt
      rw [hyref, href, hrec.histories] at hylt
      exact absurd hylt (Nat.lt_irrefl _)
    · exact absurd (heq.symm.trans he) nofun
  · exact ⟨p, hhist, hp⟩

/-- In every run whose steps all meet the condition, the state of a connection is what packets make of it that
    were signed with the key of the connection's first packet and are for its transfer, and so are the
    payloads dispatched from it. --/
theorem direct_authentic {signed : Bytes → Bytes → Prop}
    (hsig : ∀ key msg sig, S.verify key msg sig = true → signed key msg) {es : List Event}
    (hcond : Along (step S self t rs) (Authored S) new es) (hrun : exec (step S self t rs) new es = some n) {c : Nat}
    {x : Conn} {init : SignedPacket} {st : State} (hx : n.rx.conns[c]? = some x) (hinit : n.inits[c]? = some init)
    (hst : n.rx.objects[x.ref]? = some st) :
    authentic S init = true ∧ ∃ h first, n.histories[x.ref]? = some h ∧ h.creator = some first ∧ SameKey first init ∧
      (∀ o ∈ h.absorbed, ∃ c' p, o = .conn c' p ∧ SameKey p init ∧ signed init.signerKey p.canonicalBytes) ∧
      (newDirectState first.toPacket).absorbAll t rs h.absorbed = .ok st ∧
      ∀ d ∈ n.rx.dispatched, d.ref = x.ref → ∃ os st', os <+: h.absorbed ∧
        (newDirectState first.toPacket).absorbAll t rs os = .ok st' ∧ t.reassemble rs st'.toTransferState =
          .ok d.data := by
  have hnew : new.Recorded S t rs ∧ new.Direct ∧ Owned S t rs (fun _ => True) SameKey (fun p q => SameKey q p) new :=
    ⟨recorded_new, nofun, owned_new⟩
  have hinv : n.Recorded S t rs ∧ n.Direct ∧ Owned S t rs (fun _ => True) SameKey (fun p q => SameKey q p) n := by
    refine exec_keeps_along (P := fun n => n.Recorded S t rs ∧ n.Direct ∧ Owned S t rs _ _ _ n)
      (fun n e m hauth hinv hstep => ?_) hnew hcond hrun
    obtain ⟨hrec, hdirect, howned⟩ := hinv
    have hs := step_cases hrec hstep
    exact ⟨hs.recorded hrec, hdirect.step hrec hs hauth, howned.step (fun _ => ⟨rfl, rfl⟩) hrec hs (hauth.bound hrec)⟩
  obtain ⟨hrec, hdirect, howned⟩ := hinv
  obtain ⟨h, first, hh, hfirst⟩ := hdirect x (mem_of_getElem? hx)
  have hcovered : n.Covered (fun _ => True) x.ref h first := ⟨hh, hfirst, trivial⟩
  have hsame := howned.conns c x init h first hx hinit hcovered
  refine ⟨hrec.authentic init (mem_of_getElem? hinit), h, first, hh, hfirst, hsame, fun o ho => ?_,
    hrec.replays x.ref h first st hh hfirst hst, fun d hd hdref => howned.dispatched d h first hd (hdref ▸ hcovered)⟩
  obtain ⟨c', p, init', rfl, -, hsame', hverify, hgood⟩ := howned.absorbed x.ref h first hcovered o ho
  have hkey : SameKey p init :=
    ⟨(hgood.1.trans hsame'.1.symm).trans hsame.1, (hgood.2.trans hsame'.2.symm).trans hsame.2⟩
  refine ⟨c', p, rfl, hkey, hsig init.signerKey p.canonicalBytes p.signature ?_⟩
  rw [SignedPacket.verify, Signatures.verifies, Bool.and_eq_true] at hverify
  exact hkey.1 ▸ hverify.2

instance (n : Inbound) : ∀ e, Decidable (n.Authored S e)
  | .accept p => inferInstanceAs (Decidable (_ → ∀ r ∈ n.rx.table.get? p.id, ∀ h ∈ n.histories[r]?, _))
  | .read c _ => inferInstanceAs (Decidable (_ → ∀ init ∈ n.inits[c]?, _ ∧ _))
  | .other (.forward pkt _) => inferInstanceAs (Decidable (∀ r ∈ n.rx.table.get? pkt.id, ∀ h ∈ n.histories[r]?, _))
  | .other (.process _) | .other (.dispatch _) | .other (.delete _) | .other (.connect _) | .other (.chunk _ _)
    | .other (.ack _)
  | .other (.eof _) | .other (.fail _) | .other (.finish _) | .other (.close _) => inferInstanceAs (Decidable True)

namespace Senders
open Sample (node transferID streamer labelSealer)

def selfID : String := "34750f98bd59fcfc946da45aaabe933b"

def senderKey : Bytes := beBytes 32 0x8139770ea87d175f56a35466c34c7ecccb8d8a91b4ee37a25df60f5b8fc9b394

def senderHash : Bytes := beBytes 32 0x6a3803d5f059902a1c6dafbc9ba4729212f7caac08634cc3ae76b27529f03827

def otherKey : Bytes := beBytes 32 0xed4928c628d1c2c6eae90338905995612959273a5c63f93636c14614ac8737d1

def otherHash : Bytes := beBytes 32 0xb62e867fa2f33afe62d5d6b1642e1621d543307846b2a57b897e710919b76709

def sha256 (b : Bytes) : FixedBytes 32 :=
  .copy 32 (if b = senderKey then senderHash else if b = otherKey then otherHash else [])

def sigs (made : List SignedPacket) : Signatures where
  sha256
  publicKey priv := priv.drop 32
  sign priv msg := ((made.find? fun p => p.signerKey = priv.drop 32 ∧ p.canonicalBytes = msg).map (·.signature)).getD []
  verify key msg sig := made.any fun p => p.signerKey = key ∧ p.canonicalBytes = msg ∧ p.signature = sig

def fromSender (p : Packet) (signature : Bytes) : SignedPacket where
  toPacket := { p with sourceNode := "6a3803d5f059902a1c6dafbc9ba47292" }
  type := .data
  destNode := selfID
  payloadSize := UInt32.ofNat p.payload.length
  signerKey := senderKey
  signature

def fromOther (p : Packet) (signature : Bytes) : SignedPacket where
  toPacket := { p with sourceNode := "b62e867fa2f33afe62d5d6b1642e1621" }
  type := .data
  destNode := selfID
  payloadSize := UInt32.ofNat p.payload.length
  signerKey := otherKey
  signature

end Senders

namespace Stray
open Senders
open Sample (node transferID)

def init : SignedPacket := fromSender { id := transferID, totalChunks := 1 } <|
    beBytes 32 0x086cfac589fcf0a6006095fe08ad08f805cdbdc5fb345796d052c868bfdb8008 ++
    beBytes 32 0x5d1c4242ec333d48e3561e7611fd2d8facec10ac820ea9243c18ee6a18f47507

def chunk : SignedPacket := fromSender { id := transferID, totalChunks := 1, subTotal := 1, payload := [1, 2, 3] } <|
    beBytes 32 0x0e3e13d7efefca974daad144f170ba8c344cbb02923427abcbd010c641fff99e ++
    beBytes 32 0x0c08a42ad76e42b4a5cc37f5556c4fdeb77aa9585182ef695cb69390c069470e

def stray : SignedPacket :=
  fromOther { id := ⟨List.replicate 32 8, rfl⟩, totalChunks := 1, subTotal := 1, payload := [9] } <|
    beBytes 32 0x6b7bcd0ad4cbc1653bfdff90f3c55df7347982422e6ff592675f5297131949cd ++
    beBytes 32 0x2325d316796e0670cbe23d8b28b9dd7ef54aa374e174579a246fd28b679adf08

def made : List SignedPacket := [init, chunk, stray]

def keys : Signatures := sigs made

def Made (key msg : Bytes) : Prop := ∃ p ∈ made, p.signerKey = key ∧ p.canonicalBytes = msg

theorem made_of_verify (key msg sig : Bytes) (h : keys.verify key msg sig = true) : Made key msg := by
  obtain ⟨p, hp, hmatch⟩ := any_eq_true.mp h
  exact ⟨p, hp, (of_decide_eq_true hmatch).1, (of_decide_eq_true hmatch).2.1⟩

def next : Inbound → Event → Option Inbound := step keys selfID (node 0 0 1048576 none) copies

def transfer (p : SignedPacket) : List Event :=
  [.accept init, .read 0 p, .other (.ack 0), .other (.finish 0), .other (.close 0)]

end Stray

open Stray in
theorem direct_authentic_chunk :
    ∃ n h, exec next new (transfer chunk) = some n ∧ n.rx.dispatched.map (·.data) = [[1, 2, 3]] ∧
    n.histories[0]? = some h ∧ ∀ o ∈ h.absorbed, ∃ c p, o = .conn c p ∧ SameKey p init ∧
      Made init.signerKey p.canonicalBytes := by
  have hrun : (exec next new (transfer chunk)).map
    (fun n => (n.rx.conns[0]?.map (·.ref), n.inits[0]?, n.rx.objects.length,
      n.rx.dispatched.map (·.data))) = some (some 0, some init, 1, [[1, 2, 3]]) := by decide +kernel
  obtain ⟨n, hn, hout⟩ := map_eq_some_iff.mp hrun
  simp only [Prod.mk.injEq] at hout
  obtain ⟨hconn, hinit, hlen, hdata⟩ := hout
  obtain ⟨x, hx, href⟩ := map_eq_some_iff.mp hconn
  have hst : n.rx.objects[x.ref]? = some (n.rx.objects.get ⟨x.ref, by omega⟩) := getElem?_eq_getElem _
  obtain ⟨-, h, -, hh, -, -, habsorbed, -⟩ := direct_authentic made_of_verify
    (by decide +kernel : Along next (Authored keys) new (transfer chunk)) hn hx hinit hst
  exact ⟨n, h, hn, hdata, href ▸ hh, habsorbed⟩

open Stray in
/-- Somebody else's chunk of another transfer comes over the connection instead; its signature is good, and it is
    dispatched as the payload. --/
theorem stray_dispatched :
    authentic keys init = true ∧ ∃ n h, exec next new (transfer stray) = some n ∧ n.inits = [init] ∧
    n.rx.dispatched.map (·.data) = [[9]] ∧ n.histories[0]? = some h ∧ .conn 0 stray ∈ h.absorbed ∧
    stray.signerKey ≠ init.signerKey ∧ stray.id ≠ init.id := by
  have hrun : (exec next new (transfer stray)).map
    (fun n => (n.inits, n.rx.dispatched.map (·.data), n.histories[0]?.map (·.absorbed))) =
      some ([init], [[9]], some [.conn 0 stray]) := by decide +kernel
  obtain ⟨n, hn, hout⟩ := map_eq_some_iff.mp hrun
  simp only [Prod.mk.injEq] at hout
  obtain ⟨hinits, hdata, hhist⟩ := hout
  obtain ⟨h, hh, habsorbed⟩ := map_eq_some_iff.mp hhist
  refine ⟨by decide +kernel, n, h, hn, hinits, hdata, hh, ?_, by decide, by decide⟩
  rw [habsorbed]
  exact mem_singleton_self _

/-! ### Streams that can be resumed -/

/-- The packet opens a stream whose state stays when the connection is gone. --/
def Retained (p : SignedPacket) : Prop := (p.resumable && p.streaming) = true

/-- A stream that a connection opened is resumed only by its sender, and no forwarded packet is for it. --/
def SameSender (n : Inbound) : Event → Prop
  | .accept p => Retained p → ∀ r ∈ n.rx.table.get? p.id, ∀ h ∈ n.histories[r]?, ∀ first ∈ h.creator, Retained first →
      p.sourceNode = first.sourceNode
  | .other (.forward pkt _) => ∀ r ∈ n.rx.table.get? pkt.id, ∀ h ∈ n.histories[r]?, ∀ first ∈ h.creator, ¬Retained first
  | _ => True

theorem SameSender.bound (h : n.SameSender e) :
    n.Bound S Retained (fun first p => p.sourceNode = first.sourceNode) (fun _ _ => True) e := by
  cases e with
  | accept p => exact h
  | read c p => exact fun _ _ _ => trivial
  | other a =>
    cases a with
    | forward pkt routed => exact h
    | _ => exact trivial

/-- In every run whose steps all meet the condition, the state of a stream that a sender opened is what packets make
    of it that came over connections of this sender, and only these connections are told where to resume. --/
theorem retained_owned {es : List Event} (hcond : Along (step S self t rs) SameSender new es)
    (hrun : exec (step S self t rs) new es = some n) {r : Nat} {h : History} {first : SignedPacket} {st : State}
    (hh : n.histories[r]? = some h) (hfirst : h.creator = some first) (hretained : Retained first)
    (hst : n.rx.objects[r]? = some st) :
    (newDirectState first.toPacket).absorbAll t rs h.absorbed = .ok st ∧
      (∀ o ∈ h.absorbed, ∃ c p init, o = .conn c p ∧ n.inits[c]? = some init ∧ authentic S init = true ∧
        init.sourceNode = first.sourceNode) ∧
      ∀ d ∈ h.disclosed, ∃ init, n.inits[d.1]? = some init ∧ authentic S init = true ∧
        init.sourceNode = first.sourceNode := by
  have hnew : new.Recorded S t rs ∧
      Owned S t rs Retained (fun first p => p.sourceNode = first.sourceNode) (fun _ _ => True) new :=
        ⟨recorded_new, owned_new⟩
  have hinv : n.Recorded S t rs ∧
      Owned S t rs Retained (fun first p => p.sourceNode = first.sourceNode) (fun _ _ => True) n := by
    refine exec_keeps_along (P := fun n => n.Recorded S t rs ∧ Owned S t rs _ _ _ n)
      (fun n e m hsame hinv hstep => ?_) hnew hcond hrun
    obtain ⟨hrec, howned⟩ := hinv
    have hs := step_cases hrec hstep
    exact ⟨hs.recorded hrec, howned.step (fun _ => rfl) hrec hs hsame.bound⟩
  obtain ⟨hrec, howned⟩ := hinv
  have hcovered : n.Covered Retained r h first := ⟨hh, hfirst, hretained⟩
  refine ⟨hrec.replays r h first st hh hfirst hst, fun o ho => ?_, fun d hd => ?_⟩
  · obtain ⟨c, p, init, heq, hinit, hsame, -⟩ := howned.absorbed r h first hcovered o ho
    exact ⟨c, p, init, heq, hinit, hrec.authentic init (mem_of_getElem? hinit), hsame⟩
  · obtain ⟨init, hinit, hsame⟩ := howned.disclosed r h first hcovered d hd
    exact ⟨init, hinit, hrec.authentic init (mem_of_getElem? hinit), hsame⟩

instance : DecidablePred Retained := fun p => inferInstanceAs (Decidable ((p.resumable && p.streaming) = true))

instance (n : Inbound) : ∀ e, Decidable (n.SameSender e)
  | .accept p =>
    inferInstanceAs (Decidable (_ → ∀ r ∈ n.rx.table.get? p.id, ∀ h ∈ n.histories[r]?, ∀ first ∈ h.creator, _ → _))
  | .read _ _ => inferInstanceAs (Decidable True)
  | .other (.forward pkt _) =>
    inferInstanceAs (Decidable (∀ r ∈ n.rx.table.get? pkt.id, ∀ h ∈ n.histories[r]?, ∀ first ∈ h.creator, ¬_))
  | .other (.process _) | .other (.dispatch _) | .other (.delete _) | .other (.connect _) | .other (.chunk _ _)
    | .other (.ack _)
  | .other (.eof _) | .other (.fail _) | .other (.finish _) | .other (.close _) => inferInstanceAs (Decidable True)

namespace Shared
open Senders
open Sample (streamer labelSealer transferID)

def scheme : Scheme := { Sample.streamScheme with resumable := true }

def packets : List Packet :=
  packetsOf transferID scheme "" [] 0 ((streamer 1).streamBlocks copies [5, 6] transferID (some labelSealer) 0).1

def pkt (i : Nat) : Packet := packets.getD i Sample.streamInit

def opening : Packet := applyScheme { id := transferID } scheme

def init : SignedPacket := fromSender opening <|
    beBytes 32 0x57cd0d09ca39f87cad1d42063d871fc0a1eacde54d38a3d9e0fe435d375dcd2d ++
    beBytes 32 0xd3a6c7cd4b5b098e618cc5f31c6e29457ac27838c28b948b8d73a2e6f5412705

def first : SignedPacket := fromSender (pkt 0) <|
    beBytes 32 0xfe32c6247b82d039665e4bf84b5b30e318e3b9eea57b74850e21f94d843a42e3 ++
    beBytes 32 0x5c7f8b76bb12c3a55c6c48affacd4bb7449ccebb2e00d85970c996643f17ce03

def second : SignedPacket := fromSender (pkt 2) <|
    beBytes 32 0x014ab3df20189e931a1a6861e714404803bb454586b6c801acd14f2ff6aab528 ++
    beBytes 32 0xbaec0bbdf00d02c5636d03408ce79e17093be29ee4c371b6bd1c3640254b4e02

/-- Somebody else opens the stream, and sends a shard of the second block that does not open. --/
def otherInit : SignedPacket := fromOther opening <|
    beBytes 32 0x8841320a94d560774e38d5b3aa609ccdd44604cc5ea561cfa5f28c74e83afbe2 ++
    beBytes 32 0x7db410c271bb9870ba56d9bce4530652f6d5b6e20ac40110028bb6c31cd83609

def otherChunk : SignedPacket := fromOther { pkt 2 with payload := [9] } <|
    beBytes 32 0x5e303c05717840eb3be0474d54cc16832c2937217c1c6abf8f7a0a5277a425b2 ++
    beBytes 32 0x96c680c7b89c962b19657da5a73366dd4cf05c5d01acde5988628841c49ac404

def keys : Signatures := sigs [init, first, second, otherInit, otherChunk]

def next : Inbound → Event → Option Inbound := step keys selfID (streamer 1) copies

def half : List Event :=
  [.accept init, .read 0 first, .other (.ack 0), .other (.eof 0), .other (.finish 0), .other (.close 0)]

def resumed : List Event := half ++ [.accept init, .read 1 second, .other (.ack 1)]

def taken : List Event := half ++ [.accept otherInit, .read 1 otherChunk, .other (.ack 1)]

end Shared

open Shared in
theorem retained_owned_resumed :
    ∃ n h, exec next new resumed = some n ∧ n.histories[0]? = some h ∧ h.disclosed = [(0, 0), (1, 1)] ∧
    ∀ d ∈ h.disclosed, ∃ p, n.inits[d.1]? = some p ∧ authentic keys p = true ∧ p.sourceNode = init.sourceNode := by
  have hrun : (exec next new resumed).map
    (fun n => (n.histories[0]?.map fun h => (h.creator, h.disclosed), n.rx.objects.length)) =
      some (some (some init, [(0, 0), (1, 1)]), 1) := by decide +kernel
  obtain ⟨n, hn, hout⟩ := map_eq_some_iff.mp hrun
  obtain ⟨hhist, hlen⟩ := Prod.mk.inj hout
  obtain ⟨h, hh, hboth⟩ := map_eq_some_iff.mp hhist
  obtain ⟨hcreator, hdisclosed⟩ := Prod.mk.inj hboth
  have hst : n.rx.objects[0]? = some (n.rx.objects.get ⟨0, by omega⟩) := getElem?_eq_getElem _
  have howned := retained_owned (by decide +kernel : Along next SameSender new resumed) hn hh hcreator (by decide) hst
  exact ⟨n, h, hn, hh, hdisclosed, howned.2.2⟩

open Shared in
/-- Another sender with a key of their own resumes the stream: it is told the next block, and its packet
    goes into the state. --/
theorem retained_taken :
    authentic keys init = true ∧ authentic keys otherInit = true ∧ otherInit.sourceNode ≠ init.sourceNode ∧
    ∃ n, exec next new taken = some n ∧ n.inits = [init, otherInit] ∧
      n.histories = [⟨some init, [.conn 0 first, .conn 1 otherChunk], [(0, 0), (1, 1)]⟩] := by
  have hrun : (exec next new taken).map (fun n => (n.inits, n.histories)) =
      some ([init, otherInit], [⟨some init, [.conn 0 first, .conn 1 otherChunk], [(0, 0), (1, 1)]⟩]) := by
        decide +kernel
  obtain ⟨n, hn, hout⟩ := map_eq_some_iff.mp hrun
  obtain ⟨hinits, hhist⟩ := Prod.mk.inj hout
  exact ⟨by decide +kernel, by decide +kernel, by decide, n, hn, hinits, hhist⟩

end SyncSwarm.Transfer.Inbound
