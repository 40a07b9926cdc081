import SyncSwarm.Theorems.Send.FailClosed
import SyncSwarm.Theorems.Send.Forwarding
import SyncSwarm.Transfer.Reputation

/-! Blobs that come back to the node that made them: the reply block of a transfer, and the probes that
    relays are judged by. -/

namespace SyncSwarm.Transfer
open Lib Protocol Encryption Routing List GoMap
open Discovery (Node)

namespace Swarm
variable {sw : Swarm} {r : Reach} {self : String} {inner blob : Bytes}

theorem onward_toward {id : String} {next : OnionHop} {rest : Bytes} (hpeels : sw.Peels id blob (.toward next rest))
    (haddr : sw.hosts next.addr = next.nodeID) (hself : self ≠ "")
    (hreach : next.nodeID = self → r.dialable = true ∨ id ∈ r.reserved) :
    landed sw.hosts (sw.passOn r self (id, blob)).done ++ (sw.passOn r self (id, blob)).value.lands =
      [(next.nodeID, rest)] := by
  have hnext : sw.nextNode (id, blob) = some next.nodeID := by
    obtain ⟨priv, hpriv, hpeel⟩ := hpeels
    rw [nextNode, hpriv, Option.bind_some, hpeel]
    rfl
  have hstored : ∀ {way : Onward}, way ≠ .stored → (Fate.forwarded way next.nodeID rest).isStored = false := by
    intro way hway
    cases way with
    | circuit | network => rfl
    | stored => exact absurd rfl hway
  refine lands_toward hpeels haddr ?_
  rw [handled_toward hpeels, hnext]
  refine hstored ?_
  -- Either a circuit is held, or every attempt succeeds.
  by_cases hcircuit : next.nodeID = self ∧ id ∈ r.reserved
  · rw [Sender.forwardToNextHop, if_pos ⟨hcircuit.1 ▸ hself, if_pos hcircuit⟩]
    simp
  · refine forwardToNextHop_succeeds _ fun _ => ?_
    by_cases hid : next.nodeID = self
    · rcases hreach hid with hdial | hmem
      · simp [hdial]
      · exact absurd ⟨hid, hmem⟩ hcircuit
    · simp [hid]

theorem deliverInner_lands (raw : Bytes) : (Sender.deliverInner raw).lands = [] := by
  unfold Sender.deliverInner
  cases unmarshalBinary raw with
  | none => rfl
  | some inner =>
    dsimp only
    split
    · rfl
    · split <;> rfl

theorem value_sendRelayHop_false (s : Sender) (nodeID addr : String) (blob : Bytes) :
    ((s.sendRelayHop nodeID addr blob).run fun _ => false).value = false := by
  rw [Sender.sendRelayHop, Sender.sendRelayViaLink]
  split
  · split <;> rfl
  · split <;> rfl

/-- A relay that the node has no reservation with keeps what is for the node, when the node cannot be dialed. --/
theorem stuck_toward {id : String} {next : OnionHop} {rest : Bytes} (hpeels : sw.Peels id blob (.toward next rest))
    (haddr : sw.hosts next.addr = next.nodeID) (hnext : next.nodeID = self) (hdial : r.dialable = false)
    (hid : id ∉ r.reserved) :
    landed sw.hosts (sw.passOn r self (id, blob)).done ++ (sw.passOn r self (id, blob)).value.lands = [] := by
  have hnode : sw.nextNode (id, blob) = some self := by
    obtain ⟨priv, hpriv, hpeel⟩ := hpeels
    rw [nextNode, hpriv, Option.bind_some, hpeel, ← hnext]
    rfl
  have hnone : (fun _ : Nat => (decide (sw.nextNode (id, blob) ≠ some self) || r.dialable)) = fun _ => false := by
    simp [hnode, hdial]
  rw [passOn, hnone, handled_toward hpeels]
  dsimp only
  rw [append_nil, forwardToNextHop_hands haddr _ fun _ => trivial]
  refine if_pos ?_
  rw [Sender.forwardToNextHop, if_neg (by simp [hid]), Tries.run_bind, value_sendRelayHop_false]
  rfl

section
variable (hH : sw.platform.hybrid.Inverts) {draw : Nat} {hop : OnionHop} {rest : List OnionHop}
include hH

/-- An onion comes to the node at the end of its path, when the last relay before it can hand it over. --/
theorem comesHome_wrap (hself : self ≠ "") (hwrap : sw.platform.hybrid.wrap draw inner (hop :: rest) = .ok blob)
    (hshort : blob.length < 4294967296) (hserves : ∀ y ∈ hop :: rest, sw.Serves y)
    (hlast : ((hop :: rest).map (·.nodeID)).getLast? = some self) (hbetween : ∀ y ∈ rest.dropLast, y.nodeID ≠ self)
    (hreach : ∀ y, (hop :: rest).dropLast.getLast? = some y → r.dialable = true ∨ y.nodeID ∈ r.reserved) :
    sw.comesHome r self (rest.length + 1) (hop.nodeID, blob) = some (Sender.deliverInner inner) := by
  induction rest generalizing hop blob with
  | nil =>
    obtain rfl : hop.nodeID = self := Option.some.inj hlast
    have hpeels := (peels_last hH hwrap hshort (hserves hop mem_cons_self)).1
    simp [comesHome, passOn, handled_last hpeels, landed, deliverInner_lands]
  | cons next rest ih =>
    have hnext := hserves next (by simp)
    obtain ⟨inside, hinside, hpeels, hlen⟩ := peels_toward hH hwrap hshort (hserves hop mem_cons_self) hnext
    have hrest : next.nodeID = self → rest = [] := by
      intro hid
      by_contra hne
      exact hbetween next (by simp [dropLast_cons_of_ne_nil hne]) hid
    have honward := onward_toward (r := r) hpeels hnext.address hself fun hid => hreach hop (by simp [hrest hid])
    rw [comesHome, honward]
    refine ih hinside (Nat.lt_trans hlen hshort) (fun y hy => hserves y (mem_cons_of_mem _ hy)) (by simpa using hlast)
      (fun y hy => hbetween y ?_) fun y hy => hreach y ?_
    · cases rest with
      | nil => cases hy
      | cons z rest => simp [hy]
    · cases rest with
      | nil => cases hy
      | cons z rest => simpa using hy

/-- And only then. --/
theorem comesHome_wrap_none (hself : self ≠ "") (hwrap : sw.platform.hybrid.wrap draw inner (hop :: rest) = .ok blob)
    (hshort : blob.length < 4294967296) (hserves : ∀ y ∈ hop :: rest, sw.Serves y)
    (hlast : ((hop :: rest).map (·.nodeID)).getLast? = some self)
    (hbetween : ∀ y ∈ (hop :: rest).dropLast, y.nodeID ≠ self) {y : OnionHop}
    (hy : (hop :: rest).dropLast.getLast? = some y) (hdial : r.dialable = false) (hstuck : y.nodeID ∉ r.reserved)
    (n : Nat) : sw.comesHome r self n (hop.nodeID, blob) = none := by
  induction rest generalizing hop blob n with
  | nil => cases hy
  | cons next rest ih =>
    cases n with
    | zero => rfl
    | succ n =>
      have hnext := hserves next (by simp)
      obtain ⟨inside, hinside, hpeels, hlen⟩ := peels_toward hH hwrap hshort (hserves hop mem_cons_self) hnext
      rw [comesHome]
      cases rest with
      | nil =>
        cases hy
        rw [stuck_toward hpeels hnext.address (by simpa using hlast) hdial hstuck]
        exact if_neg (hbetween hop (by simp))
      | cons z rest =>
        rw [onward_toward (r := r) hpeels hnext.address hself fun hid => absurd hid (hbetween next (by simp))]
        exact ih hinside (Nat.lt_trans hlen hshort) (fun y hy => hserves y (mem_cons_of_mem _ hy))
          (by simpa using hlast)
          (fun y hy => hbetween y (mem_cons_of_mem hop hy)) (by simpa using hy) n

end

end Swarm

/-! ### Reply blocks -/

namespace Sender
variable {s : Sender} {m : Moment} {id : TransferID} {relays : List Peer} {ackToken : Bytes}

/-- The node itself, as the last hop of a way back. --/
def selfPeer (s : Sender) (priv : Bytes) : Peer :=
  { id := s.selfID, address := s.selfAddr, pubKey := s.hybrid.publicKey priv, active := true }

/-- The acknowledgement that a reply block carries. --/
def ackPacket (s : Sender) (m : Moment) (id : TransferID) (ackToken : Bytes) : SignedPacket :=
  { SignedPacket.new s.sigs s.text .acknowledgement ackToken "" "" m.replyNow with id }

theorem toOption_getD_ok {built : Except String Bytes} (h : built.toOption.getD [] ≠ []) :
    ∃ block, built = .ok block ∧ built.toOption.getD [] = block := by
  cases built with
  | error e => exact absurd rfl h
  | ok block => exact ⟨block, rfl, rfl⟩

/-- The relays on the way back: those that `BuildPath` picks by latency and subnet. --/
def replyRelays (s : Sender) (priv : Bytes) (relays : List Peer) : List Peer :=
  selectDiverse s.net (sorted (eligible (s.selfPeer priv) relays))
    (min (s.hopsFor relays s.selfAddr).toNat (eligible (s.selfPeer priv) relays).length) s.selfAddr

theorem buildReplyBlock_ok (h : s.buildReplyBlock m id relays ackToken ≠ []) :
    ∃ priv first rest hops blob, s.nodePriv = some priv ∧
    s.replyRelays priv relays = first :: rest ∧ s.toOnionHops (pathOf (first :: rest) (s.selfPeer priv)) = .ok hops ∧
    s.hybrid.buildOnion m.replyDraw hops (marshalBinary (s.ackPacket m id ackToken)) = .ok blob ∧
    s.buildReplyBlock m id relays ackToken = s.marshalReply first.address blob := by
  rw [buildReplyBlock] at h ⊢
  cases hpriv : s.nodePriv with
  | none => simp [hpriv] at h
  | some priv =>
    simp only [hpriv] at h ⊢
    split at h
    · exact absurd rfl h
    next hhops =>
      rw [if_neg hhops]
      obtain ⟨block, hbuilt, heq⟩ : ∃ block, _ = Except.ok block ∧ _ = block := toOption_getD_ok h
      rw [heq]
      simp only [bind_eq_ok] at hbuilt
      obtain ⟨path, hpath, hbuilt⟩ := hbuilt
      simp only [buildPath, bind_eq_ok, pure_eq_ok] at hpath
      obtain ⟨peers, hpeers, rfl⟩ := hpath
      obtain ⟨rfl, -, -⟩ := candidates_ok hpeers
      split at hbuilt
      · cases hbuilt
      next hlen =>
        obtain ⟨hops, hkeys, hbuilt⟩ := bind_eq_ok.mp hbuilt
        obtain ⟨blob, hblob, hbuilt⟩ := bind_eq_ok.mp hbuilt
        cases hbuilt
        have hkeys : s.toOnionHops (pathOf (s.replyRelays priv relays) (s.selfPeer priv)) = .ok hops := hkeys
        have hlen : ¬(pathOf (s.replyRelays priv relays) (s.selfPeer priv)).length < 2 := hlen
        cases hpicked : s.replyRelays priv relays with
        | nil => exact absurd (by simp [pathOf, hpicked]) hlen
        | cons first rest =>
          rw [hpicked] at hkeys
          exact ⟨priv, first, rest, hops, blob, rfl, hpicked, hkeys, hblob,
            congrArg (fun picked =>
              s.marshalReply ((pathOf picked (s.selfPeer priv)).headD (s.selfPeer priv).hop).address blob) hpicked⟩

theorem mem_replyRelays {priv : Bytes} {r : Peer} (h : r ∈ s.replyRelays priv relays) :
    r ∈ eligible (s.selfPeer priv) relays :=
  (perm_sorted _).subset (selectDiverse_subset h)

namespace Trio
open Transfer.Sample (transferID)

def behind : Swarm where
  platform
  node id :=
    { sender with
      selfID := id
      nodePriv := some (if id = "a" then [2] else if id = "b" then [3] else [9])
      hopCount := 1
      adaptiveOnion := false }
  same _ := rfl
  hosts addr := if addr = "a:1" then "a" else if addr = "b:1" then "b" else "s"

def usable : List Peer := (behind.node "s").relayPeers (fun _ => false) [peer "a" 2, peer "b" 3] "d"

def block : Bytes := (behind.node "s").buildReplyBlock (moment true) transferID usable [5]

theorem knows_relays : ∀ r ∈ usable, behind.Knows r := by
  have hpeers : usable =
      [(behind.node "s").relayPeer (peer "a" 2), (behind.node "s").relayPeer (peer "b" 3)] := by decide +kernel
  rw [hpeers]
  intro r hr
  rcases mem_cons.mp hr with rfl | hr
  · exact ⟨⟨[2], rfl, rfl⟩, by decide +kernel, by decide +kernel⟩
  · obtain rfl := mem_singleton.mp hr
    exact ⟨⟨[3], rfl, rfl⟩, by decide +kernel, by decide +kernel⟩

theorem knows_self (priv : Bytes) (h : (behind.node "s").nodePriv = some priv) :
    behind.Knows ((behind.node "s").selfPeer priv) := by
  cases h
  exact ⟨⟨[9], rfl, rfl⟩, by decide +kernel, by decide +kernel⟩

/-- The same nodes, with two hops on the way back. --/
def farBehind : Swarm := { behind with node := fun id => { behind.node id with hopCount := 2 }, same := fun _ => rfl }

end Trio

end Sender
/-! ### Probes -/

theorem deliverInner_ack {p : SignedPacket} (h : Framed p) (hdecoy : p.decoy = false)
    (htype : p.type = .acknowledgement) :
    Sender.deliverInner (marshalBinary p) = .acknowledged p.id p.payload := by
  unfold Sender.deliverInner
  rw [unmarshal_marshal h.proper h.timed h.short]
  dsimp only
  rw [hdecoy, htype, if_neg Bool.false_ne_true, if_pos rfl]

namespace Prober
variable {p : Prober} {relay : String} {st : Standing} {now : Nat} {n : Node} {c : Challenge} {nodes : List Node}

/-- The challenge is made as it should be: the node has the keys and the address of the relay, and
    the probe gets to it. --/
structure Fair (p : Prober) (c : Challenge) (n : Node) : Prop where
  sent : c.sent
  stamp : -9223372036854775808 ≤ c.stamp ∧ c.stamp < 9223372036854775808
  knows : p.swarm.Knows ((p.swarm.node p.self).relayPeer n)
  onion : ∀ priv, (p.swarm.node p.self).nodePriv = some priv →
    ∃ blob, (p.swarm.node p.self).probeOnion c priv n = .ok blob ∧ blob.length < 4294967296

theorem framed_probe {s : Sender} (hstamp : -9223372036854775808 ≤ c.stamp ∧ c.stamp < 9223372036854775808) :
    Framed (s.probe c) where
  proper := ⟨rfl, Hybrid.isGoString_empty, Hybrid.isGoString_empty, Hybrid.isGoString_empty⟩
  timed := ⟨hstamp.1, hstamp.2⟩
  length := by
    rw [length_marshalBinary]
    show 124 + (strBytes "").length + (strBytes "").length + (strBytes "").length + 0 + 0 + 0 + 0 + 0 ≤ 8388608
    decide +kernel

theorem probeRelay_faithful {priv : Bytes} (hH : p.swarm.platform.hybrid.Inverts) (hself : p.self ≠ "")
    (hid : (p.swarm.node p.self).selfID = p.self) (hpriv : (p.swarm.node p.self).nodePriv = some priv)
    (hknows : p.swarm.Knows ((p.swarm.node p.self).selfPeer priv)) (hfair : p.Fair c n) (hfaithful : p.faithful n.id)
    (hreach : c.reach.dialable = true ∨ n.id ∈ c.reach.reserved) : p.probeRelay priv c n = true := by
  obtain ⟨blob, hblob, hshort⟩ := hfair.onion priv hpriv
  obtain ⟨pub, hpub, hbuild⟩ := bind_eq_ok.mp hblob
  have hhybrid : (p.swarm.node p.self).hybrid = p.swarm.platform.hybrid :=
    congrArg Platform.hybrid (p.swarm.same p.self)
  have hnew : (p.swarm.node p.self).newPublicKey = p.swarm.platform.newPublicKey :=
    congrArg Platform.newPublicKey (p.swarm.same p.self)
  rw [hhybrid] at hbuild
  have hrelay : p.swarm.Serves ⟨n.id, (p.swarm.node p.self).peerDialAddr n, some pub⟩ := by
    obtain ⟨relayPriv, hrelayPriv, hkey⟩ := hfair.knows.key
    rw [hnew] at hpub
    exact ⟨⟨relayPriv, hrelayPriv, congrArg some (Except.ok.inj (hpub.symm.trans hkey))⟩, hfair.knows.address,
      hfair.knows.names⟩
  have hhome :
      p.swarm.Serves ⟨(p.swarm.node p.self).selfID, (p.swarm.node p.self).selfAddr,
      some (p.swarm.platform.hybrid.publicKey priv)⟩ :=
    ⟨⟨priv, hid.symm ▸ hpriv, rfl⟩, hknows.address, hknows.names⟩
  have hreturn : p.swarm.comesHome c.reach p.self 2 (n.id, blob) = _ :=
    Swarm.comesHome_wrap hH hself (Swarm.wrap_of_buildOnion hbuild) hshort
      (by simpa using ⟨hrelay, hhome⟩) (by simp [hid])
      (by simp) (by simpa using hreach)
  have haddr : p.swarm.hosts ((p.swarm.node p.self).peerDialAddr n) = n.id := hfair.knows.address
  simp only [probeRelay, hblob, hfair.sent, hfaithful, haddr, if_true, Bool.true_and, hreturn,
    deliverInner_ack (framed_probe hfair.stamp) rfl rfl]
  exact decide_eq_true rfl

end Prober

namespace Standing
variable {relay : String} {st : Standing} {now : Nat}

/-- The relay has no strike and is not cast out. --/
def Good (relay : String) (st : Standing) : Prop :=
  st.relayStrikes.get? relay = none ∧ st.excommunions.get? relay = none

theorem get?_delete_none {m : GoMap String Nat} {k : String} (h : m.get? relay = none) :
    (GoMap.delete m k).get? relay = none := by
  by_cases hk : relay = k
  · rw [hk, get?_delete_self]
  · rw [get?_delete_ne _ hk, h]

theorem Good.isExcommunicated (h : st.Good relay) (id : String) : (st.isExcommunicated now id).2.Good relay := by
  rw [Standing.isExcommunicated]
  split
  · exact h
  · split
    · exact h
    · exact ⟨get?_delete_none h.1, get?_delete_none h.2⟩

theorem Good.recordProbe {cfg : ReputationConfig} (h : st.Good relay) {id : String} {ok : Bool}
    (hok : id = relay → ok = true) :
    (st.recordProbe cfg now id ok).Good relay := by
  rw [Standing.recordProbe]
  split
  · exact ⟨get?_delete_none h.1, h.2⟩
  next hbad =>
    have hne : relay ≠ id := fun heq => hbad (hok heq.symm)
    dsimp only
    split
    · exact ⟨get?_delete_none h.1, by rw [get?_set_ne _ _ hne, h.2]⟩
    · exact ⟨by rw [get?_set_ne _ _ hne, h.1], h.2⟩

end Standing

namespace Prober
variable {p : Prober} {relay : String} {st : Standing} {now : Nat} {n : Node} {c : Challenge} {nodes : List Node}

theorem good_probeTargets {s : Sender} {left : Nat} (h : st.Good relay) :
    (s.probeTargets now nodes left st).2.Good relay ∧ ∀ n ∈ (s.probeTargets now nodes left st).1, n ∈ nodes := by
  induction nodes generalizing left st with
  | nil => exact ⟨h, nofun⟩
  | cons n nodes ih =>
    have hout : (st.isExcommunicated now n.id).2.Good relay := h.isExcommunicated n.id
    rw [Sender.probeTargets]
    split
    · exact ⟨(ih h).1, fun x hx => mem_cons_of_mem _ ((ih h).2 x hx)⟩
    · dsimp only
      split
      · exact ⟨(ih hout).1, fun x hx => mem_cons_of_mem _ ((ih hout).2 x hx)⟩
      · split
        · exact ⟨hout, by simp⟩
        · refine ⟨(ih hout).1, fun x hx => ?_⟩
          rcases mem_cons.mp hx with rfl | hx
          · exact mem_cons_self
          · exact mem_cons_of_mem _ ((ih hout).2 x hx)

/-- A relay is challenged as it should be, and can reach the node. --/
def Reached (p : Prober) (relay : String) : Action → Prop
  | .round _ nodes challenge => ∀ n ∈ nodes, n.id = relay → p.Fair (challenge n) n ∧
      ((challenge n).reach.dialable = true ∨ relay ∈ (challenge n).reach.reserved)
  | .look _ _ => True

/-- In every run in which it can reach the node whenever it is challenged, a relay that follows the program
    never gets a strike. --/
theorem faithful_in_good_standing (hH : p.swarm.platform.hybrid.Inverts) (hself : p.self ≠ "")
    (hid : (p.swarm.node p.self).selfID = p.self)
    (hknows : ∀ priv, (p.swarm.node p.self).nodePriv = some priv → p.swarm.Knows ((p.swarm.node p.self).selfPeer priv))
    (hfaithful : p.faithful relay) {acts : List Action} (hreached : ∀ a ∈ acts, p.Reached relay a) :
    (acts.foldl p.step .new).Good relay := by
  refine foldlRecOn acts p.step ⟨rfl, rfl⟩ fun st hst a ha => ?_
  cases a with
  | look now id => exact hst.isExcommunicated id
  | round now nodes challenge =>
    rw [step, probeRound]
    cases hpriv : (p.swarm.node p.self).nodePriv with
    | none => exact hst
    | some priv =>
      have htargets : ((p.swarm.node p.self).probeTargets now nodes maxProbeRelays st).2.Good relay ∧ _ :=
        good_probeTargets hst
      obtain ⟨hgood, hsub⟩ := htargets
      refine foldlRecOn _ _ hgood fun st hst n hn => hst.recordProbe fun heq => ?_
      obtain ⟨hfair, hreach⟩ := hreached _ ha n (hsub n hn) heq
      exact probeRelay_faithful hH hself hid hpriv (hknows priv hpriv) hfair (heq ▸ hfaithful) (heq ▸ hreach)

open Sender.Trio

def challenge : Challenge where
  probeID := Transfer.Sample.transferID
  stamp := 0
  draw := 0
  sent := true
  reach := ⟨["a"], false⟩
  other := false
  now := 0

def prober : Prober :=
  { swarm := behind, self := "s", faithful := fun _ => true, cfg := { strikeLimit := 3, penance := 3600 } }

/-- Three rounds in which the relay `b` cannot reach the node, and a look at it. --/
def rounds : List Action :=
  List.replicate 3 (.round 0 [peer "a" 2, peer "b" 3] fun _ => challenge) ++ [.look 0 "b"]

theorem faithful_in_good_standing_reserved :
    (rounds.foldl prober.step .new).excommunions.get? "b" = some 3600 ∧ (rounds.foldl prober.step .new).Good "a" := by
  refine ⟨by decide +kernel, faithful_in_good_standing Encryption.Sample.twofold_ideal.inverts (by decide) rfl
    knows_self rfl fun a ha => ?_⟩
  rcases mem_append.mp ha with ha | ha
  case inr =>
    obtain rfl := mem_singleton.mp ha
    trivial
  obtain rfl := eq_of_mem_replicate ha
  intro n hn hid
  have hn : n = peer "a" 2 := by
    rcases mem_pair.mp hn with rfl | rfl
    · rfl
    · exact absurd hid (by decide)
  subst hn
  refine ⟨⟨rfl, by decide, ⟨⟨[2], rfl, rfl⟩, by decide +kernel, by decide +kernel⟩, fun priv hpriv => ?_⟩,
    .inr (by decide)⟩
  cases hpriv
  have hsome : ((behind.node "s").probeOnion challenge [9] (peer "a" 2)).toOption.any fun blob => blob.length <
      4294967296 := by decide +kernel
  cases hblob : (behind.node "s").probeOnion challenge [9] (peer "a" 2) with
  | error e => cases hblob ▸ hsome
  | ok blob =>
    rw [hblob] at hsome
    exact ⟨blob, hblob, of_decide_eq_true hsome⟩

/-- The relay `b` hands on what it gets, cannot reach the node, and is cast out after three rounds. --/
theorem faithful_cast_out :
    let st := rounds.foldl prober.step .new
    prober.faithful "b" ∧ st.excommunions.get? "b" = some 3600 ∧ st.excommunions.get? "a" = none := by
  refine ⟨rfl, ?_, ?_⟩ <;> decide +kernel

end Prober
end SyncSwarm.Transfer
