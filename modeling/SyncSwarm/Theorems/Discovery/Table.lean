import SyncSwarm.Theorems.Discovery.Moves

/-! How the table of peers grows and shrinks. What a frame tells about nodes is a list of messages. -/

set_option linter.dupNamespace false

namespace SyncSwarm.Discovery
open Lib Protocol List Option GoMap

/-- The subnet in which an address counts; an address at a bootstrap host counts in none. --/
def PeerConfig.place (cfg : PeerConfig) (addr : String) : Option String :=
  if cfg.isBootstrapAddr addr then none else some (subnetKey cfg.net addr)

namespace Peers
variable {cfg : PeerConfig} {p q : Peers} {id addr : String} {ref : Nat} {n m : Node} {P : Node → Bool}

/-! ### Counting records -/

def tally (p : Peers) (P : Node → Bool) : Nat := p.nodes.count fun _ ref => p.objects[ref]?.any P

theorem countP_listed (cfg : PeerConfig) (p : Peers) (P : Node → Bool) : (p.listed cfg).countP P = p.tally P := by
  rw [listed, countP_filterMap, (cfg.iter.perm p.nodes).countP_eq]
  refine countP_congr fun e _ => ?_
  show ((p.objects[e.2]?).map P).getD false = true ↔ (p.objects[e.2]?).any P = true
  cases p.objects[e.2]? <;> rfl

theorem mem_listed (h : n ∈ p.listed cfg) : ∃ id, p.node? id = some n := by
  obtain ⟨⟨id, ref⟩, he, hn⟩ := mem_filterMap.mp h
  have href := mem_entries.mp ((cfg.iter.perm p.nodes).mem_iff.mp he)
  exact ⟨id, bind_eq_some_iff.mpr ⟨ref, href, hn⟩⟩

theorem Named.node?_of_mem_listed (hp : Named p) (h : n ∈ p.listed cfg) : p.node? n.id = some n := by
  obtain ⟨id, hn⟩ := mem_listed h
  rwa [hp.node?_id hn]

theorem tally_evict (hn : p.node? id = some n) (P : Node → Bool) : (p.evict id).tally P + (P n).toNat = p.tally P := by
  obtain ⟨ref, href, hobj⟩ := bind_eq_some_iff.mp hn
  have h := count_delete href fun _ ref => p.objects[ref]?.any P
  rwa [hobj] at h

theorem tally_evict_le (p : Peers) (id : String) (P : Node → Bool) : (p.evict id).tally P ≤ p.tally P :=
  count_delete_le p.nodes id fun _ ref => p.objects[ref]?.any P

theorem tally_add (hp : Named p) (hnew : p.nodes.get? n.id = none) (P : Node → Bool) :
    (p.add n).tally P = p.tally P + (P n).toNat := by
  rw [tally, add, count_set hnew, getElem?_concat_length]
  refine congrArg (· + _) (count_congr fun id ref href => ?_)
  rw [getElem?_append_left (hp.lt href)]

theorem tally_setObject (hn : p.objects[ref]? = some n) (hP : P m = P n) : (p.setObject ref m).tally P = p.tally P := by
  refine count_congr fun id ref' _ => ?_
  rw [setObject, getElem?_set']
  split
  next hr =>
    subst hr
    rw [hn]
    exact hP
  · rfl

theorem len_eq_tally (hp : Named p) (P : Node → Bool) : p.nodes.len = p.tally P + p.tally fun n => !P n := by
  rw [len_eq_count_add p.nodes fun _ ref => p.objects[ref]?.any P, tally, tally]
  refine congrArg (_ + ·) (count_congr fun id ref href => ?_)
  obtain ⟨n, hn, -⟩ := hp id ref href
  rw [hn, any_some, any_some]

/-! ### Room for a peer -/

def others (cfg : PeerConfig) (p : Peers) : List Node := (p.listed cfg).filter fun n => !cfg.isBootstrapAddr n.address

def neighbours (cfg : PeerConfig) (p : Peers) (addr : String) : List Node :=
  (p.others cfg).filter fun n => subnetKey cfg.net n.address = subnetKey cfg.net addr

inductive Drops (l : List Node) (full : Prop) (p : Peers) : Peers → Prop where
  | none : ¬full → Drops l full p p
  | stalest {n : Node} : full → Peers.stalest l = some n → Drops l full p (p.evict n.id)

/-- Who makes room for a new peer. --/
inductive Admits (cfg : PeerConfig) (p : Peers) (addr : String) : Peers → Prop where
  | anchor : cfg.isBootstrapAddr addr = true → Admits cfg p addr p
  | room {r q : Peers} : cfg.isBootstrapAddr addr = false →
    Drops (p.neighbours cfg addr) (maxPeersPerSubnet ≤ (p.neighbours cfg addr).length) p r →
    Drops (p.others cfg) (maxPeers ≤ r.nodes.len) r q → Admits cfg p addr q

theorem admits_of_admitLocked (h : p.admitLocked cfg addr = some q) : Admits cfg p addr q := by
  have hdrops : ∀ {l : List Node} {full : Prop} [Decidable full] {p q : Peers},
      (if full then (stalest l).map fun n => p.evict n.id else some p) = some q → Drops l full p q := by
    intro l full _ p q h
    split at h
    next hfull =>
      obtain ⟨n, hn, rfl⟩ := map_eq_some_iff.mp h
      exact .stalest hfull hn
    next hfull =>
      cases h
      exact .none hfull
  rw [admitLocked] at h
  split at h
  next hanchor =>
    cases h
    exact .anchor hanchor
  next hanchor =>
    obtain ⟨r, hr, hq⟩ := bind_eq_some_iff.mp h
    exact .room (eq_false_of_ne_true hanchor) (hdrops hr) (hdrops hq)

theorem Drops.tally_le {l : List Node} {full : Prop} (h : Drops l full p q) (P : Node → Bool) :
    q.tally P ≤ p.tally P := by
  cases h with
  | none => exact Nat.le_refl _
  | stalest => exact tally_evict_le p _ P

theorem Drops.fewer {r : Peers} {l : List Node} {full : Prop} (h : Drops l full q r) (hq : Fewer p q) : Fewer p r := by
  cases h with
  | none => exact hq
  | stalest => exact hq.evict _

theorem Admits.tally_le (h : Admits cfg p addr q) (P : Node → Bool) : q.tally P ≤ p.tally P := by
  cases h with
  | anchor => exact Nat.le_refl _
  | room _ hr hq => exact Nat.le_trans (hq.tally_le P) (hr.tally_le P)

theorem Admits.fewer (h : Admits cfg p addr q) : Fewer p q := by
  cases h with
  | anchor => exact .refl p
  | room _ hr hq => exact hq.fewer (hr.fewer (.refl p))

theorem mem_others (h : n ∈ p.others cfg) : n ∈ p.listed cfg ∧ cfg.isBootstrapAddr n.address = false := by
  obtain ⟨hmem, hother⟩ := mem_filter.mp h
  exact ⟨hmem, by simpa using hother⟩

theorem stalest_mem {l : List Node} (h : stalest l = some n) : n ∈ l := firstMin_mem h

theorem get?_fewer (hf : Fewer p q) (h : p.nodes.get? id = none) : q.nodes.get? id = none := by
  cases href : q.nodes.get? id with
  | none => rfl
  | some ref =>
    rw [hf.nodes id ref href] at h
    cases h

theorem tally_added {now : Int} {op : PeerOp} (hp : Named p) (hnew : p.nodes.get? op.id = none) (hf : Fewer p q)
    (P : Node → Bool) :
    ({ q.add (op.fresh now) with contacts := op.met ++ p.contacts } : Peers).tally P =
      q.tally P + (P (op.fresh now)).toNat := by
  refine tally_add (hp.fewer hf) ?_ P
  rw [PeerOp.fresh_id]
  exact get?_fewer hf hnew

end Peers

/-! ### What a frame tells -/

namespace PeerOp
variable (S : Signatures) (cfg : PeerConfig) (now : Int)

def next (p : Peers) (op : PeerOp) : Option Peers := some (op.run S cfg now p)

theorem exec_next (p : Peers) (ops : List PeerOp) : exec (next S cfg now) p ops = some (p.runAll S cfg now ops) := by
  induction ops generalizing p with
  | nil => rfl
  | cons op ops ih => exact ih (op.run S cfg now p)

end PeerOp

namespace Discovery
variable {env : Env} {cfg : Config} {w u : Discovery} {a : Action} {q : Peers}

/-- The messages about nodes in a packet that verifies, without those that the handlers refuse. --/
def tellsSigned (env : Env) (cfg : Config) (remoteAddr : String) (pkt : SignedPacket) : List PeerOp :=
  match pkt.type with
  | .peerExchange => (env.json.peerExchange.unmarshal pkt.payload).elim [] (gossipOps env pkt)
  | .findNode => (env.json.findNode.unmarshal pkt.payload).elim [] fun fn =>
      if fn.nodeID = pkt.signerID env.sigs then
        [.sight ⟨fn.nodeID, remoteAddr, fn.pubKey, pkt.signerKey, fn.port, [], [], []⟩ true]
      else []
  | .findNodeReply => (env.json.findNodeReply.unmarshal pkt.payload).elim [] (contactOps env cfg)
  | .announce => (env.json.announce.unmarshal pkt.payload).elim [] fun ap =>
      if ap.verifyBound env.sigs then [.sight (announced ap remoteAddr) (ap.hopCount = 0)] else []
  | .discovery | .latencyCheck => (env.json.discovery.unmarshal pkt.payload).elim [] fun payload =>
      if payload.nodeID = pkt.signerID env.sigs then [.sight (described payload remoteAddr pkt.signerKey) true] else []
  | _ => []

/-- The messages about nodes that a frame from `remoteAddr` brings; a discovery packet that comes by
    routing tells no address. --/
def tells (env : Env) (cfg : Config) (remoteAddr : String) (pkt : SignedPacket) : List PeerOp :=
  if pkt.type = .routedDiscovery then
    (unmarshalBinary (routedInner pkt.payload)).elim [] fun ip =>
      if ip.type = .discovery ∧ ip.verify env.sigs = true then tellsSigned env cfg "" ip else []
  else if pkt.verify env.sigs then tellsSigned env cfg remoteAddr pkt else []

theorem tells_signed {remoteAddr : String} {pkt : SignedPacket} {t : PacketType} (htype : pkt.type = t)
    (ht : t ≠ .routedDiscovery) (hv : pkt.verify env.sigs = true) :
    tells env cfg remoteAddr pkt = tellsSigned env cfg remoteAddr pkt := by
  rw [tells, if_neg (htype ▸ ht), if_pos hv]

theorem Handles.tells {now : Int} {remoteAddr : String} {srcIface : Interface} {pkt : SignedPacket} {c c' : Core}
    (h : Handles env cfg now remoteAddr srcIface pkt c c') :
    c'.peers = c.peers ∨
      c'.peers = c.peers.runAll env.sigs (cfg.peerConfig env) now (tells env cfg remoteAddr pkt) := by
  cases h with
  | dropped | heard | routed => exact .inl rfl
  | gossiped hv htype hpx =>
    rw [tells_signed htype nofun hv, tellsSigned, htype]
    simp only [hpx]
    exact .inr rfl
  | asked hv htype hfn hbound =>
    rw [tells_signed htype nofun hv, tellsSigned, htype]
    simp only [hfn, elim_some, if_pos hbound]
    exact .inr rfl
  | contacts hv htype hfr =>
    rw [tells_signed htype nofun hv, tellsSigned, htype]
    simp only [hfr]
    exact .inr rfl
  | announced hv htype hap _ hbound =>
    rw [tells_signed htype nofun hv, tellsSigned, htype]
    simp only [hap, elim_some, if_pos hbound]
    exact .inr rfl
  | discovered hv htype hpayload hbound =>
    rcases htype with htype | htype
    · rw [tells_signed htype nofun hv, tellsSigned, htype]
      simp only [hpayload, elim_some, if_pos hbound]
      exact .inr rfl
    · rw [tells_signed htype nofun hv, tellsSigned, htype]
      simp only [hpayload, elim_some, if_pos hbound]
      exact .inr rfl
  | replied | routedReply => exact .inl (Core.peers_reply _ _ _ _)
  | @routedPeer ip payload hbrings htype hv _ hdiscovery hpayload hbound =>
    cases hbrings with
    | straight _ hne => exact absurd htype hne
    | carried _ _ hip =>
      rw [Discovery.tells, if_pos htype, hip]
      simp only [elim_some]
      rw [if_pos ⟨hdiscovery, hv⟩, tellsSigned, hdiscovery]
      simp only [hpayload, elim_some, if_pos hbound]
      exact .inr rfl

/-- What an action can do to the table. --/
inductive Tables (env : Env) (cfg : Config) (w : Discovery) : Action → Peers → Prop where
  | same {a : Action} : Tables env cfg w a w.peers
  | told {addr remoteAddr : String} {srcIface : Interface} {pkt : SignedPacket} {nonce : UInt64} :
    env.net.resolve addr = some remoteAddr →
    Tables env cfg w (.frame addr srcIface pkt nonce)
      (w.peers.runAll env.sigs (cfg.peerConfig env) w.now (tells env cfg remoteAddr pkt))
  | touched {a : Action} {ref : Nat} {n m : Node} : w.peers.objects[ref]? = some n → m.id = n.id →
    m.address = n.address →
    Tables env cfg w a (w.peers.setObject ref m)

theorem step_tables (h : next env cfg w a = some u) : Tables env cfg w a u.peers := by
  have hmoves := step_cases h
  show Tables env cfg w a u.core.peers
  generalize u.core = c at hmoves
  cases hmoves with
  | handled hresolve hhandles =>
    rcases hhandles.tells with hsame | htold
    · rw [hsame]
      exact .same
    · rw [htold]
      exact .told hresolve
  | @concluded k x latency =>
    show Tables env cfg w _ (w.concludeProbe x latency)
    rcases concludeProbe_cases w x latency with hsame | ⟨ref, n, lat, active, lastSeen, -, hn, hset, -⟩
    · rw [hsame]
      exact .same
    · rw [hset]
      exact .touched hn rfl rfl
  | _ => exact .same

/-- Every message about a node in a frame meets the condition, at the table that it finds. --/
def Hears (env : Env) (cfg : Config) (C : Peers → PeerOp → Prop) (w : Discovery) : Action → Prop
  | .frame addr _ pkt _ => (env.net.resolve addr).elim True fun remoteAddr =>
      Along (PeerOp.next env.sigs (cfg.peerConfig env) w.now) C w.peers (tells env cfg remoteAddr pkt)
  | _ => True

instance Hears.decidable (C : Peers → PeerOp → Prop) [∀ p op, Decidable (C p op)] (w : Discovery) :
    ∀ a, Decidable (Hears env cfg C w a)
  | .frame addr _ pkt _ =>
    match h : env.net.resolve addr with
    | none => isTrue (by rw [Hears, h]; trivial)
    | some remoteAddr => decidable_of_iff
        (Along (PeerOp.next env.sigs (cfg.peerConfig env) w.now) C w.peers (tells env cfg remoteAddr pkt))
          (by rw [Hears, h]; rfl)
  | .checkLatencies | .findNode _ | .measure _ _ | .answered _ | .timeout _ | .canceled _ | .conclude _
    | .announceSelf _ | .requestPath _ _
  | .sendRouted _ _ _ | .broadcastDiscovery | .gossipPeers | .setRelay _ _ | .setRelayIDs _ _ | .tick _
    | .stop => isTrue trivial

/-- What messages under the condition keep, and what is not about names and addresses does not
    touch, every run keeps. --/
theorem hears_keep {C : Peers → PeerOp → Prop} {P : Peers → Prop}
    (hop : ∀ p op now, C p op → P p → P (op.run env.sigs (cfg.peerConfig env) now p))
    (htouch : ∀ (p : Peers) (ref : Nat) (n m : Node), p.objects[ref]? = some n → m.id = n.id → m.address = n.address →
      P p → P (p.setObject ref m))
    {as : List Action} (hw : P w.peers) (hC : Along (next env cfg) (Hears env cfg C) w as)
    (hrun : exec (next env cfg) w as = some u) :
    P u.peers := by
  refine exec_keeps_along (P := fun w => P w.peers) ?_ hw hC hrun
  intro w a u hheard hw hstep
  have htables := step_tables hstep
  generalize u.peers = q at htables
  cases htables with
  | same => exact hw
  | @told addr remoteAddr srcIface pkt nonce hresolve =>
    rw [Hears, hresolve] at hheard
    refine exec_keeps_along (fun p op q hC hp hq => ?_) hw hheard (PeerOp.exec_next _ _ _ _ _)
    cases hq
    exact hop p op w.now hC hp
  | touched hn hid haddr => exact htouch w.peers _ _ _ hn hid haddr hw

end Discovery
end SyncSwarm.Discovery
