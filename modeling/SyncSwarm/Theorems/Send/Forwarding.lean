import SyncSwarm.Transfer.Forwarding
import SyncSwarm.Theorems.Send.FailClosed

/-! The way of an onion: what a send hands to the first hops, and what a node finds in a blob and does with it. -/

namespace SyncSwarm.Transfer
open Lib Protocol Fragment Encryption Routing List
open Discovery (Node)

/-! ### Where blobs land -/

section Lands
variable {hosts : String → String} {s : Sender} {nodeID addr : String} {blob : Bytes} {x : String × Bytes}

theorem landed_append (done more : List Emission) :
    landed hosts (done ++ more) = landed hosts done ++ landed hosts more :=
  filterMap_append

/-- The blob is handed over once if the call succeeds, and otherwise not at all. --/
abbrev Hands (hosts : String → String) (x : String × Bytes) (m : Tries Emission Bool) : Prop :=
  Tries.Ensures (fun _ => True) m fun ok done => landed hosts done = if ok then [x] else []

abbrev Quiet (hosts : String → String) (m : Tries Emission Bool) : Prop :=
  Tries.Ensures (fun _ => True) m fun _ done => landed hosts done = []

theorem hands_or {m m' : Tries Emission Bool} (hm : Hands hosts x m) (hm' : Hands hosts x m') :
    Hands hosts x (m.or m') := by
  refine Tries.Ensures.bind hm fun ok done hdone => ?_
  cases ok with
  | true =>
    refine Tries.Ensures.of_pure ?_
    rw [append_nil]
    exact hdone
  | false =>
    refine hm'.mono fun ok more hmore => ?_
    rw [landed_append, hdone]
    exact hmore

theorem hands_and {m m' : Tries Emission Bool} (hm : Quiet hosts m) (hm' : Hands hosts x m') :
    Hands hosts x (m.and m') := by
  refine Tries.Ensures.bind hm fun ok done hdone => ?_
  cases ok with
  | true =>
    refine hm'.mono fun ok more hmore => ?_
    rw [landed_append, hdone]
    exact hmore
  | false =>
    refine Tries.Ensures.of_pure ?_
    rw [append_nil]
    exact hdone

theorem quiet_ask : Quiet hosts Tries.ask := Tries.Ensures.of_ask fun _ _ => rfl

theorem quiet_dialTimes (n : Nat) : Quiet hosts (Sender.dialTimes addr n) := by
  have hdial : Tries.Only (fun e => e.lands hosts = none) (Sender.dialTimes addr n) :=
    Sender.only_dialTimes (fun _ => rfl) n
  exact hdial.mono fun _ done hdone => filterMap_eq_nil_iff.mpr hdone

theorem hands_sendRelayBlob (hhosts : hosts addr = nodeID) :
    Hands hosts (nodeID, blob) (Sender.sendRelayBlob addr blob) := by
  have hwrite : Hands hosts (nodeID, blob) (Tries.attempt (.write addr (.relay blob))) :=
    Tries.Ensures.of_attempt fun ok _ => by
    cases ok with
    | true => rw [← hhosts]; rfl
    | false => rfl
  exact hands_or (hands_and quiet_ask hwrite) (hands_and (quiet_dialTimes _) hwrite)

theorem hands_sendRelayViaLink : Hands hosts (nodeID, blob) (Sender.sendRelayViaLink nodeID blob) := by
  rw [Sender.sendRelayViaLink]
  split
  · exact Tries.Ensures.of_pure rfl
  · refine hands_and (Tries.Ensures.of_attempt fun _ _ => rfl) (Tries.Ensures.of_attempt fun ok _ => ?_)
    cases ok with
    | true | false => rfl

theorem hands_sendRelayHop (hhosts : hosts addr = nodeID) :
    Hands hosts (nodeID, blob) (s.sendRelayHop nodeID addr blob) := by
  rw [Sender.sendRelayHop]
  split
  · exact hands_or hands_sendRelayViaLink (hands_sendRelayBlob hhosts)
  · exact hands_or (hands_sendRelayBlob hhosts) hands_sendRelayViaLink

theorem forwardToNextHop_hands {circuits : String → Option Bool} (hhosts : hosts addr = nodeID) :
    Tries.Ensures (fun _ => True) (s.forwardToNextHop circuits nodeID addr blob) fun way done =>
      landed hosts done ++ (Fate.forwarded way nodeID blob).lands = if way = .stored then [] else [(nodeID, blob)] := by
  rw [Sender.forwardToNextHop]
  split
  · exact Tries.Ensures.of_pure rfl
  · refine Tries.Ensures.bind (hands_sendRelayHop hhosts) fun ok done hdone => Tries.Ensures.of_pure ?_
    rw [append_nil, hdone]
    cases ok with
    | true | false => rfl

/-- A computation succeeds when every answer is yes. --/
abbrev Succeeds (m : Tries Emission Bool) : Prop := Tries.Ensures (· = true) m fun ok _ => ok = true

theorem succeeds_or_left {m m' : Tries Emission Bool} (hm : Succeeds m) : Succeeds (m.or m') := by
  refine Tries.Ensures.bind hm fun ok done hok => ?_
  rw [if_pos hok]
  exact Tries.Ensures.of_pure rfl

theorem succeeds_or_right {m m' : Tries Emission Bool} (hm' : Succeeds m') : Succeeds (m.or m') := by
  refine Tries.Ensures.bind (R := fun _ _ => True) (fun _ _ => trivial) fun ok done _ => ?_
  split
  · exact Tries.Ensures.of_pure rfl
  · exact hm'

theorem succeeds_and {m m' : Tries Emission Bool} (hm : Succeeds m) (hm' : Succeeds m') : Succeeds (m.and m') := by
  refine Tries.Ensures.bind hm fun ok done hok => ?_
  rw [if_pos hok]
  exact hm'

theorem succeeds_attempt {event : Bool → Emission} :
    Succeeds (Tries.attempt event) := Tries.Ensures.of_attempt fun _ h => h

theorem succeeds_sendRelayHop : Succeeds (s.sendRelayHop nodeID addr blob) := by
  have hblob : Succeeds (Sender.sendRelayBlob addr blob) :=
    succeeds_or_left (succeeds_and (Tries.Ensures.of_ask fun _ h => h) succeeds_attempt)
  rw [Sender.sendRelayHop]
  split
  · exact succeeds_or_right hblob
  · exact succeeds_or_left hblob

theorem forwardToNextHop_succeeds {circuits : String → Option Bool} :
    Tries.Ensures (· = true) (s.forwardToNextHop circuits nodeID addr blob) fun way _ => way ≠ .stored := by
  rw [Sender.forwardToNextHop]
  split
  · exact Tries.Ensures.of_pure nofun
  · refine Tries.Ensures.bind succeeds_sendRelayHop fun ok done hok => Tries.Ensures.of_pure ?_
    rw [if_pos hok]
    exact nofun

end Lands

/-! ### Onions on their way -/

namespace Swarm
variable {sw : Swarm} {dest : String} {inner : Bytes}

def Peels (sw : Swarm) (id : String) (blob : Bytes) (layer : OnionLayer) : Prop :=
  ∃ priv, (sw.node id).nodePriv = some priv ∧ sw.platform.hybrid.peelOnion priv blob = .ok layer

structure Serves (sw : Swarm) (hop : OnionHop) : Prop where
  key : ∃ priv, (sw.node hop.nodeID).nodePriv = some priv ∧ hop.pubKey = some (sw.platform.hybrid.publicKey priv)
  address : sw.hosts hop.addr = hop.nodeID
  names : IsGoString hop.addr ∧ IsGoString hop.nodeID

/-- What is known about the relay is right: its key, its address and its name. --/
structure Knows (sw : Swarm) (r : Peer) : Prop where
  key : ∃ priv, (sw.node r.id).nodePriv = some priv ∧ sw.platform.newPublicKey r.pubKey =
    .ok (sw.platform.hybrid.publicKey priv)
  address : sw.hosts r.address = r.id
  names : IsGoString r.address ∧ IsGoString r.id

theorem length_inner_lt (l : OnionLayer) : l.inner.length < l.marshalBinary.length := by
  simp only [OnionLayer.marshalBinary, lenBytes, length_cons, length_append]
  omega

theorem wrap_of_buildOnion {H : Hybrid} {draw : Nat} {hop : OnionHop} {rest : List OnionHop} {blob : Bytes}
    (h : H.buildOnion draw (hop :: rest) inner = .ok blob) : H.wrap draw inner (hop :: rest) = .ok blob := by
  rw [Hybrid.buildOnion, if_neg (by simp)] at h
  split at h
  · cases h
  · exact h

theorem peels_last (hH : sw.platform.hybrid.Inverts) {draw : Nat} {hop : OnionHop} {blob : Bytes}
    (hwrap : sw.platform.hybrid.wrap draw inner [hop] = .ok blob) (hshort : blob.length < 4294967296)
    (hserves : sw.Serves hop) :
    sw.Peels hop.nodeID blob (.last inner) ∧ inner.length < blob.length := by
  obtain ⟨priv, hpriv, hkey⟩ := hserves.key
  rw [Hybrid.wrap, hkey] at hwrap
  have hlen := hH.grows hwrap
  have hproper :=
    OnionLayer.proper_of_length (l := .last inner) Hybrid.isGoString_empty Hybrid.isGoString_empty (by omega)
  exact ⟨⟨priv, hpriv, hH.peel_sealed hwrap hproper⟩, Nat.lt_of_lt_of_le (length_inner_lt (.last inner)) hlen⟩

theorem peels_toward (hH : sw.platform.hybrid.Inverts) {draw : Nat} {hop next : OnionHop} {rest : List OnionHop}
    {blob : Bytes} (hwrap : sw.platform.hybrid.wrap draw inner (hop :: next :: rest) = .ok blob)
    (hshort : blob.length < 4294967296) (hserves : sw.Serves hop) (hnext : sw.Serves next) :
    ∃ inside, sw.platform.hybrid.wrap draw inner (next :: rest) = .ok inside ∧
      sw.Peels hop.nodeID blob (.toward next inside) ∧
      inside.length < blob.length := by
  obtain ⟨priv, hpriv, hkey⟩ := hserves.key
  rw [Hybrid.wrap, hkey] at hwrap
  obtain ⟨inside, hinside, hseal⟩ := bind_eq_ok.mp hwrap
  have hlen := hH.grows hseal
  have hproper := OnionLayer.proper_of_length (l := .toward next inside) hnext.names.1 hnext.names.2 (by omega)
  exact ⟨inside, hinside, ⟨priv, hpriv, hH.peel_sealed hseal hproper⟩,
    Nat.lt_of_lt_of_le (length_inner_lt (.toward next inside)) hlen⟩

theorem serves_toOnionHops {s : Sender} (hs : s.toPlatform = sw.platform) {peers : List Peer} {hops : List OnionHop}
    (hok : s.toOnionHops (peers.map Peer.hop) = .ok hops) (hknows : ∀ r ∈ peers, sw.Knows r) :
    hops.map (·.nodeID) = peers.map Peer.id ∧ ∀ hop ∈ hops, sw.Serves hop := by
  induction peers generalizing hops with
  | nil =>
    cases hok
    exact ⟨rfl, nofun⟩
  | cons r peers ih =>
    rw [map_cons, Sender.toOnionHops, mapM_cons] at hok
    obtain ⟨hop, hhop, hok⟩ := bind_eq_ok.mp hok
    obtain ⟨rest, hrest, hok⟩ := bind_eq_ok.mp hok
    cases hok
    have hr := hknows r mem_cons_self
    obtain ⟨priv, hpriv, hkey⟩ := hr.key
    have hkey : s.newPublicKey r.hop.pubKey = .ok (sw.platform.hybrid.publicKey priv) := by
      rw [← hkey, ← hs]
      rfl
    rw [hkey] at hhop
    cases hhop
    obtain ⟨hids, hserves⟩ := ih hrest fun r hr => hknows r (mem_cons_of_mem _ hr)
    refine ⟨by rw [map_cons, hids]; rfl, fun hop hhop => ?_⟩
    rcases mem_cons.mp hhop with rfl | hhop
    · exact ⟨⟨priv, hpriv, rfl⟩, hr.address, hr.names⟩
    · exact hserves hop hhop

/-! ### What a node does with a blob -/

section Handled
variable {id : String} {blob raw rest : Bytes} {next : OnionHop} {circuits : String → Option Bool}
  {answers : Nat → Bool}

theorem handled_last (h : sw.Peels id blob (.last raw)) :
    Forwarding.handled sw (id, blob) circuits answers = ⟨Sender.deliverInner raw, answers, []⟩ := by
  obtain ⟨priv, hpriv, hpeel⟩ := h
  rw [Forwarding.handled, Sender.handleRelayBlob, hpriv]
  simp only
  rw [sw.same, hpeel]
  rfl

theorem handled_toward (h : sw.Peels id blob (.toward next rest)) :
    Forwarding.handled sw (id, blob) circuits answers =
      let out := ((sw.node id).forwardToNextHop circuits next.nodeID next.addr rest).run answers
      ⟨.forwarded out.value next.nodeID rest, out.rest, out.done ++ []⟩ := by
  obtain ⟨priv, hpriv, hpeel⟩ := h
  rw [Forwarding.handled, Sender.handleRelayBlob, hpriv]
  simp only
  rw [sw.same, hpeel]
  rfl

theorem lands_toward (h : sw.Peels id blob (.toward next rest)) (hhosts : sw.hosts next.addr = next.nodeID)
    (hkept : (Forwarding.handled sw (id, blob) circuits answers).value.isStored = false) :
    landed sw.hosts (Forwarding.handled sw (id, blob) circuits answers).done ++
      (Forwarding.handled sw (id, blob) circuits answers).value.lands =
      [(next.nodeID, rest)] := by
  rw [handled_toward h] at hkept ⊢
  dsimp only at hkept ⊢
  rw [append_nil, forwardToNextHop_hands hhosts answers fun _ => trivial, if_neg]
  intro hstored
  rw [hstored] at hkept
  cases hkept

end Handled
end Swarm

end SyncSwarm.Transfer
