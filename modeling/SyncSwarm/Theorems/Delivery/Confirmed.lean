import SyncSwarm.Theorems.Acks.Answered
import SyncSwarm.Theorems.Delivery.Moves
import SyncSwarm.Theorems.Ingest.Outgoing
import SyncSwarm.Theorems.Ingest.Owed

/-! A confirmed transfer has been dispatched, as it was sent, if the destination takes nothing for it but
    what its sender has made. -/

namespace SyncSwarm.Transfer
open Lib Protocol Fragment List Option

/-- A confirming send to the destination, with the token of its acknowledgement and the reply blocks that carry it. --/
structure Tracked (d : Destination) extends Outgoing d.cfg d.rs where
  token : Bytes
  replies : List Bytes

namespace Delivery
variable {onDelivered : Bool} {iter : GoMap.Iteration TransferID PendingAck} {d : Destination}
  {w u : Delivery} {a : Action}
  {s : Tracked d} {cut : Nat → Int}

def Authentic (d : Destination) (w : Delivery) (pkt : SignedPacket) : Prop :=
  pkt.verify d.sigs = true → pkt.signerKey = d.key → pkt.canonicalBytes ∈ w.signed

def Released (replies : List Bytes) (w : Delivery) : Prop := ∃ rb ∈ replies, .reply rb ∈ w.dest.owed

/-- What is beyond the network: it has no signatures of the destination but those that were made, and it knows neither
    the token nor a reply block before the destination sends the reply block. An ID that was drawn at random is not
    the hash of a time, and the sender has registered with a key that is bound to the ID of the destination. --/
def Possible (s : Tracked d) (w : Delivery) : Action → Prop
  | .direct data => ∀ pkt ∈ unmarshalBinary data, Authentic d w pkt
  | .routed inner => ∀ pkt ∈ unmarshalBinary inner, Authentic d w pkt
  | .onion inner => ∀ pkt ∈ unmarshalBinary inner, 0 < s.token.length → pkt.payload = s.token → Released s.replies w
  | .receive (.forward pkt _) _ _ => pkt.replyBlock ∈ s.replies → pkt.id = s.id ∨ Released s.replies w
  | .receive (.connect pkt) now _ =>
    (pkt.replyBlock ∈ s.replies → pkt.id = s.id ∨ Released s.replies w) ∧ d.sigs.sha256 (d.text now) ≠ s.id
  | .receive (.ack _) now _ => d.sigs.sha256 (d.text now) ≠ s.id
  | .send (.register id destNode destKey token) =>
    id = s.id → destNode = d.selfID ∧ (destKey = [] ∨ deriveNodeID d.sigs destKey = destNode) ∧ token = s.token
  | _ => True

instance (pkt : SignedPacket) : Decidable (Authentic d w pkt) :=
  inferInstanceAs (Decidable (_ → _ → _))

instance (replies : List Bytes) : Decidable (Released replies w) :=
  inferInstanceAs (Decidable (∃ rb ∈ replies, .reply rb ∈ w.dest.owed))

instance : ∀ a, Decidable (Possible s w a)
  | .direct data => inferInstanceAs (Decidable (∀ pkt ∈ unmarshalBinary data, Authentic d w pkt))
  | .routed inner => inferInstanceAs (Decidable (∀ pkt ∈ unmarshalBinary inner, Authentic d w pkt))
  | .onion inner => inferInstanceAs (Decidable (∀ pkt ∈ unmarshalBinary inner, _ → _ → _))
  | .receive (.forward _ _) _ _ => inferInstanceAs (Decidable (_ → _ ∨ _))
  | .receive (.connect _) _ _ => inferInstanceAs (Decidable ((_ → _ ∨ _) ∧ _ ≠ _))
  | .receive (.ack _) _ _ => inferInstanceAs (Decidable (_ ≠ _))
  | .send (.register _ _ _ _) => inferInstanceAs (Decidable (_ → _ ∧ (_ ∨ _) ∧ _))
  | .receive (.process _) _ _ | .receive (.dispatch _) _ _ | .receive (.delete _) _ _ | .receive (.chunk _ _) _ _
  | .receive (.eof _) _ _ | .receive (.fail _) _ _ | .receive (.finish _) _ _ | .receive (.close _) _ _
  | .send (.confirmed _) | .send (.timeout _) | .send (.cancel _) | .send (.retain _) | .send (.check _)
    | .send (.unregister _)
  | .send (.arrive _ _) | .send (.report _) | .send (.tick _) | .acknowledge _ _ _ | .state _ =>
    inferInstanceAs (Decidable True)

/-- The destination takes nothing for the transfer but what its sender has made. --/
def Own (s : Tracked d) (cut : Nat → Int) (w : Delivery) : Action → Prop
  | .receive a _ _ => w.dest.Own s.toOutgoing cut a
  | _ => True

instance : ∀ a, Decidable (Own s cut w a)
  | .receive a _ _ => inferInstanceAs (Decidable (w.dest.Own s.toOutgoing cut a))
  | .send _ | .acknowledge _ _ _ | .state _ | .direct _ | .routed _ | .onion _ => inferInstanceAs (Decidable True)

/-- The invariant of sender, destination and network. --/
structure Sound (s : Tracked d) (cut : Nat → Int) (w : Delivery) : Prop where
  refs : w.dest.Refs
  filled : w.dest.Filled
  exact : w.dest.Exact s.toOutgoing cut
  guarded : w.dest.Guarded s.replies s.id
  owned : w.sender.Owned
  answered : w.sender.Answered
  pending : ∀ pa, w.sender.pending.get? s.id = some pa → (pa.destKey = [] ∨ pa.destKey = d.key) ∧ pa.token = s.token
  signed : ∀ pkt : SignedPacket, pkt.type = .acknowledgement → pkt.id = s.id → pkt.canonicalBytes ∈ w.signed →
    w.dest.Dispatched s.id
  resolved : ∀ r ∈ w.sender.resolutions, r.id = s.id → w.dest.Dispatched s.id

theorem sound_new : new.Sound s cut where
  refs := Receiver.refs_new
  filled := Receiver.filled_new
  exact := Receiver.exact_new
  guarded := Receiver.guarded_new
  owned := Confirmations.owned_new
  answered := Confirmations.answered_new
  pending pa hpa := by
    rw [show new.sender.pending = ∅ from rfl, GoMap.get?_empty] at hpa
    cases hpa
  signed _ _ _ hmem := absurd hmem not_mem_nil
  resolved _ hr := absurd hr not_mem_nil

theorem Sound.owed (h : w.Sound s cut) {ack : Ack} (hack : ack ∈ w.dest.owed) :
    (ack.names? = some s.id → w.dest.Dispatched s.id) ∧ ∀ rb ∈ s.replies, ack = .reply rb → w.dest.Dispatched s.id :=
  h.guarded.owed (fun st hst hid => (h.exact.state st hst hid).2.2) hack

theorem Sound.released (h : w.Sound s cut) (hreleased : Released s.replies w) : w.dest.Dispatched s.id := by
  obtain ⟨rb, hrb, hack⟩ := hreleased
  exact (h.owed hack).2 rb hrb rfl

theorem Sound.secret {b : Transfer.Action} {now : Int} {source : String} (h : w.Sound s cut)
    (hpossible : Possible s w (.receive b now source)) : w.dest.Secret s.replies s.id b := by
  cases b with
  | forward pkt routed => exact fun hrb => (hpossible hrb).imp_right h.released
  | connect pkt => exact fun hrb => (hpossible.1 hrb).imp_right h.released
  | _ => exact trivial

theorem Sound.receive {b : Transfer.Action} {now : Int} {source : String} {dest : Receiver} (h : w.Sound s cut)
    (hrs : d.rs.Lawful) (hcut : ∀ ref, s.Cut (cut ref)) (hs : Receiver.Steps d.cfg d.rs w.dest b dest)
    (hpossible : Possible s w (.receive b now source)) (hown : w.dest.Own s.toOutgoing cut b) :
    (sign { w with dest } (d.connAcks dest now source b)).Sound s cut where
  refs := hs.refs h.refs
  filled := hs.filled h.refs h.filled
  exact := hs.exact hrs hcut h.refs h.filled hown h.exact
  guarded := hs.guarded h.refs (h.secret hpossible) h.guarded
  owned := h.owned
  answered := h.answered
  pending := h.pending
  signed pkt htype hid hmem := by
    rcases mem_append.mp hmem with hmem | hmem
    · obtain ⟨ack, hack, hbytes⟩ := mem_map.mp hmem
      obtain ⟨hhash, hwhere⟩ := Destination.connAcks_id hack
      have heq : d.sigs.sha256 (d.text now) = s.id :=
        hhash.symm.trans ((SignedPacket.canonicalBytes_inj hbytes).2.trans hid)
      obtain ⟨p, rfl⟩ | ⟨c, rfl⟩ := hwhere
      · exact absurd heq hpossible.2
      · exact absurd heq hpossible
    · exact (h.signed pkt htype hid hmem).mono hs.dispatched_prefix
  resolved r hr hid := (h.resolved r hr hid).mono hs.dispatched_prefix

theorem Sound.send {b : Confirmations.Action} {sender : Confirmations} (h : w.Sound s cut)
    (hbind : ∀ key, deriveNodeID d.sigs key = d.selfID → key = d.key)
    (hs : Confirmations.Steps onDelivered iter w.sender b sender)
    (hregister : ∀ destNode destKey token, b = .register s.id destNode destKey token → destNode = d.selfID ∧
      (destKey = [] ∨ deriveNodeID d.sigs destKey = destNode) ∧ token = s.token)
    (hresolved : ∀ r ∈ sender.resolutions, r.id = s.id → w.dest.Dispatched s.id) :
    ({ w with sender } : Delivery).Sound s cut where
  refs := h.refs
  filled := h.filled
  exact := h.exact
  guarded := h.guarded
  owned := hs.owned h.owned
  answered := hs.answered h.answered
  pending pa hpa := by
    rcases hs.pending hpa with ⟨pa', hpa', hrenews⟩ | ⟨-, destNode, hb⟩
    · rw [hrenews.destKey, hrenews.token]
      exact h.pending pa' hpa'
    · obtain ⟨hnode, hkey, htoken⟩ := hregister _ _ _ hb
      exact ⟨hkey.imp_right fun hid => hbind _ (hid.trans hnode), htoken⟩
  signed := h.signed
  resolved := hresolved

theorem Sound.accepted {pkt : SignedPacket} {proof : AckProof} {pa : PendingAck} (h : w.Sound s cut)
    (hbrings : Brings d a pkt proof) (hpossible : Possible s w a) (hid : pkt.id = s.id)
    (hpa : w.sender.pending.get? s.id = some pa) (haccepts : pa.accepts proof = true) : w.dest.Dispatched s.id := by
  obtain ⟨hkey, htoken⟩ := h.pending pa hpa
  have hsigned : ∀ {key : Bytes}, pa.accepts (.signed key) = true → key = d.key := by
    intro key hacc
    simp only [PendingAck.accepts, Bool.and_eq_true, decide_eq_true_eq] at hacc
    rcases hkey with hkey | hkey
    · rw [hkey] at hacc
      exact absurd hacc.1 (Nat.lt_irrefl 0)
    · exact hacc.2.symm.trans hkey
  cases hbrings with
  | direct hpkt hverify htype | routed hpkt hverify htype =>
    exact h.signed pkt htype hid (hpossible pkt hpkt hverify (hsigned haccepts))
  | onion hpkt =>
    simp only [PendingAck.accepts, Bool.and_eq_true, decide_eq_true_eq, htoken] at haccepts
    exact h.released (hpossible pkt hpkt haccepts.1 haccepts.2.symm)

theorem Steps.sound (hs : Steps onDelivered iter d w a u) (hrs : d.rs.Lawful)
    (hbind : ∀ key, deriveNodeID d.sigs key = d.selfID → key = d.key) (hcut : ∀ ref, s.Cut (cut ref))
    (hpossible : Possible s w a) (hown : w.Own s cut a) (h : w.Sound s cut) : u.Sound s cut := by
  cases hs with
  | @sent b sender hne hb =>
    refine h.send hbind hb (fun destNode destKey token hreg => ?_) fun r hr hid => ?_
    · subst hreg
      exact hpossible rfl
    · rcases hb.resolution hr with ⟨r', hr', hid', -⟩ | ⟨-, proof, harrive, -⟩
      · exact h.resolved r' hr' (hid'.trans hid)
      · exact absurd harrive (hne r.id proof)
  | received hb => exact h.receive hrs hcut hb hpossible hown
  | @acknowledged ack now active hack =>
    refine ⟨h.refs, h.filled, h.exact, h.guarded, h.owned, h.answered, h.pending,
      fun pkt htype hid hmem => ?_, h.resolved⟩
    rcases mem_append.mp hmem with hmem | hmem
    · obtain ⟨p, hp, hbytes⟩ := mem_map.mp hmem
      have hpid : p.id = s.id := (SignedPacket.canonicalBytes_inj hbytes).2.trans hid
      obtain ⟨node, hnames⟩ := Destination.answer_names (mem_toList.mp hp)
      refine (h.owed hack).1 ?_
      obtain rfl | rfl := hnames
      · exact congrArg some hpid
      · exact congrArg some hpid
    · exact h.signed pkt htype hid hmem
  | @stated m hm =>
    refine ⟨h.refs, h.filled, h.exact, h.guarded, h.owned, h.answered, h.pending,
      fun pkt htype hid hmem => ?_, h.resolved⟩
    rcases mem_cons.mp hmem with hbytes | hmem
    · exact absurd hbytes.symm (Statement.bytes_ne hm htype)
    · exact h.signed pkt htype hid hmem
  | @heard _ pkt proof sender hbrings hb =>
    refine h.send hbind hb (fun _ _ _ hreg => nomatch hreg) fun r hr hid => ?_
    rcases hb.resolution hr with ⟨r', hr', hid', -⟩ | ⟨hget, _, harrive, hacc⟩
    · exact h.resolved r' hr' (hid'.trans hid)
    · obtain ⟨hpkt, rfl⟩ := Confirmations.Action.arrive.inj harrive
      exact h.accepted hbrings hpossible (hpkt.trans hid) (hid ▸ hget) hacc
  | ignored => exact h

/-- When the send returns without an error, or `onDelivered` is called for it, the destination has dispatched the
    transfer, and whatever it has dispatched under its ID is the payload. --/
theorem confirmed_dispatched {acts : List Action} (hrs : d.rs.Lawful)
    (hbind : ∀ key, deriveNodeID d.sigs key = d.selfID → key = d.key) (hcut : ∀ ref, s.Cut (cut ref))
    (hrun : exec (step onDelivered iter d) new acts = some w)
    (hpossible : Along (step onDelivered iter d) (Possible s) new acts)
    (hown : Along (step onDelivered iter d) (Own s cut) new acts)
    (htold : (∃ x ∈ w.sender.calls, x.id = s.id ∧ x.phase.confirmed = true) ∨
      ∃ dest, (s.id, dest) ∈ w.sender.delivered) :
    (∃ e ∈ w.dest.dispatched, e.id = s.id) ∧ ∀ e ∈ w.dest.dispatched, e.id = s.id → e.data = s.data := by
  have hsound : w.Sound s cut := by
    refine exec_keeps_along (fun v b t hb hv hstep => ?_) sound_new (hpossible.and hown) hrun
    exact (step_cases hstep).sound hrs hbind hcut hb.1 hb.2 hv
  have hresolution : ∃ r ∈ w.sender.resolutions, r.id = s.id := by
    rcases htold with ⟨x, hx, hid, hc⟩ | ⟨dest, hdest⟩
    · obtain ⟨c, hc'⟩ := mem_iff_getElem?.mp hx
      obtain ⟨r, hr, hrid⟩ := hsound.answered.resolution hsound.owned hc' hc
      exact ⟨r, hr, hrid.trans hid⟩
    · exact hsound.owned.delivered _ hdest
  obtain ⟨r, hr, hid⟩ := hresolution
  exact ⟨hsound.resolved r hr hid, hsound.exact.dispatched⟩

/-! ### One transfer -/

namespace ThreeBytes
open Sample (node transferID)

def senderID : String := "34750f98bd59fcfc946da45aaabe933b"

def key : Bytes := beBytes 32 0x8139770ea87d175f56a35466c34c7ecccb8d8a91b4ee37a25df60f5b8fc9b394

def keyHash : FixedBytes 32 := .copy 32 (beBytes 32 0x6a3803d5f059902a1c6dafbc9ba4729212f7caac08634cc3ae76b27529f03827)

def start : Int := 1767225600000000000

def startText : Bytes :=
  beBytes 32 0x323032362d30312d30312030303a30303a3030202b3030303020555443206d3d ++
  beBytes 12 0x2b312e303030303030303030

def startHash : FixedBytes 32 :=
  .copy 32 (beBytes 32 0x82a5d3cfd623b1c5c348a5a55767606c3a6285d7f2d7f6b350001783482c4823)

def message : Bytes :=
  beBytes 48 0x040707070707070707070707070707070707070707070707070707070707070707000000203661333830336435663035 ++
  beBytes 48 0x393930326131633664616662633962613437323932000000000000002033343735306639386264353966636663393436 ++
  beBytes 48 0x646134356161616265393333620000000000000000000000000000000000000000000000000000000000000000000000 ++
  beBytes 48 0x000000000000000000000000000000000000208139770ea87d175f56a35466c34c7ecccb8d8a91b4ee37a25df60f5b8f ++
  beBytes 8 0xc9b3940000000000

def signature : Bytes :=
  beBytes 32 0xca0c61e0a2f7d4d727a73efa04fca3f10ca3dfdd04cac6129091325c587128a5 ++
  beBytes 32 0x12763bf0c24663e223aaa4c0ac1819a7f755de4ce202596dd1ba67c1d97b2e07

def sigs : Signatures where
  sha256 b := if b = key then keyHash else if b = startText then startHash else .copy 32 []
  publicKey priv := priv.drop 32
  sign priv msg := if priv.drop 32 = key ∧ msg = message then signature else []
  verify pub msg sig := pub = key && msg = message && sig = signature

def receiver : Destination where
  cfg := node 0 0 1048576 none
  rs := copies
  sigs
  text now := if now = start then startText else []
  signKey := List.replicate 32 2 ++ key
  padCell := 0

theorem bound (pub : Bytes) (h : deriveNodeID receiver.sigs pub = receiver.selfID) : pub = receiver.key := by
  by_contra hne
  have hne : pub ≠ key := hne
  have hself : receiver.selfID = hexString (keyHash.val.take 16) := by decide +kernel
  rw [hself, deriveNodeID] at h
  split at h
  · exact absurd h (by decide +kernel)
  · simp only [receiver, sigs, if_neg hne] at h
    split at h <;> exact absurd h (by decide +kernel)

def tracked : Tracked receiver where
  tx := node 0 0 1048576 none
  id := transferID
  data := [1, 2, 3]
  isVariable := false
  hybrid := false
  pq := false
  sealer := none
  frags := plainFragments transferID [[1, 2, 3]]
  sc := {}
  size := by decide
  short := Sample.short_bytes
  built := by decide
  opens := trivial
  few := Sample.few_plain
  token := List.replicate 16 5
  replies := []

def packet (payload : Bytes) : Packet :=
  { id := transferID, sourceNode := senderID, totalChunks := 1, subTotal := 1, payload }

/-- The send is registered, a packet under its ID comes to the destination and is dispatched, and the acknowledgement of
    that reaches the sender. --/
def run (payload : Bytes) : List Action :=
  [.send (.register transferID receiver.selfID key (List.replicate 16 5)),
   .receive (.forward (packet payload) true) start "", .receive (.process 0) start "", .receive (.dispatch 0) start "",
   .acknowledge (.routed senderID transferID) start true,
   .routed (marshalBinary (receiver.finishAck { receiver.newAck start senderID with id := transferID })),
   .send (.report 0), .send (.confirmed 0)]

def next : Delivery → Action → Option Delivery := step true Confirmations.OneCall.iteration receiver

end ThreeBytes

open ThreeBytes in
theorem confirmed_dispatched_sent : ∃ w, exec next new (run [1, 2, 3]) = some w ∧
    w.sender.calls = [⟨tracked.id, receiver.selfID, .leaving .confirmed⟩] ∧
    (∃ e ∈ w.dest.dispatched, e.id = tracked.id) ∧ ∀ e ∈ w.dest.dispatched, e.id = tracked.id →
      e.data = tracked.data := by
  have hrun : (exec next new (run [1, 2, 3])).map (·.sender.calls) =
      some [⟨tracked.id, receiver.selfID, .leaving .confirmed⟩] := by decide +kernel
  obtain ⟨w, hw, hcalls⟩ := map_eq_some_iff.mp hrun
  have hpossible : Along next (Possible tracked) new (run [1, 2, 3]) := by decide +kernel
  have hown : Along next (Own tracked fun _ => 0) new (run [1, 2, 3]) := by decide +kernel
  refine ⟨w, hw, hcalls, confirmed_dispatched copies_lawful bound (fun _ => by decide +kernel) hw
    hpossible hown (.inl ?_)⟩
  exact ⟨_, hcalls ▸ mem_singleton_self _, rfl, rfl⟩

open ThreeBytes in
/-- Somebody who has seen the ID sends another payload under it. The destination signs for the ID, and the sender is
    told of a delivery that did not take place. --/
theorem confirmed_undelivered : ∃ w, exec next new (run [9]) = some w ∧
    Along next (Possible tracked) new (run [9]) ∧
    w.sender.calls = [⟨tracked.id, receiver.selfID, .leaving .confirmed⟩] ∧ ∀ e ∈ w.dest.dispatched, e.data ≠
      tracked.data := by
  have hrun : (exec next new (run [9])).map (fun w => (w.sender.calls, w.dest.dispatched.map (·.data))) =
      some ([⟨tracked.id, receiver.selfID, .leaving .confirmed⟩], [[9]]) := by decide +kernel
  obtain ⟨w, hw, heq⟩ := map_eq_some_iff.mp hrun
  obtain ⟨hcalls, hdata⟩ := Prod.mk.inj heq
  refine ⟨w, hw, by decide +kernel, hcalls, fun e he heq => ?_⟩
  have hmem : e.data ∈ w.dest.dispatched.map (·.data) := mem_map_of_mem he
  rw [hdata, heq] at hmem
  exact absurd hmem (by decide)

end Delivery
end SyncSwarm.Transfer
