import SyncSwarm.Theorems.Discovery.Limits

/-! What third parties say about nodes, and whom it can push out of the table. -/

set_option linter.dupNamespace false

namespace SyncSwarm.Discovery
open Lib Protocol List Option GoMap

/-- The message is not of the node that it is about. --/
def PeerOp.hearsay : PeerOp → Bool
  | sight _ verified => !verified
  | gossip _ selfAttested => !selfAttested

theorem PeerOp.verified_of_hearsay {op : PeerOp} (h : op.hearsay = true) : op.verified = false := by
  cases op with
  | sight s verified =>
    cases verified with
    | false => rfl
    | true => cases h
  | gossip => rfl

namespace Peers
variable {S : Signatures} {cfg : PeerConfig} {p q : Peers} {op : PeerOp} {id addr : String} {n m : Node}
  {l : List Node} {full : Prop}

/-- A message about a node, at a time. --/
def hear (S : Signatures) (cfg : PeerConfig) (p : Peers) (msg : Int × PeerOp) : Option Peers :=
  some (msg.2.run S cfg msg.1 p)

/-- Whoever has to make room for a peer at the address is not active. --/
def Spares (cfg : PeerConfig) (p : Peers) (addr : String) : Prop :=
  (maxPeersPerSubnet ≤ (p.neighbours cfg addr).length → ∀ n ∈ stalest (p.neighbours cfg addr), n.active = false) ∧
  (maxPeers ≤ p.nodes.len → ∀ n ∈ stalest (p.others cfg), n.active = false)

/-- The message moves no peer away from a bootstrap host, and if it is hearsay about a node that is new at another
    host, nobody who is active has to make room for that one. --/
def Restrained (S : Signatures) (cfg : PeerConfig) (p : Peers) (msg : Int × PeerOp) : Prop :=
  msg.2.passes S cfg = true →
    (∀ n ∈ p.node? msg.2.id, cfg.isBootstrapAddr n.address = true →
      cfg.isBootstrapAddr (msg.2.leaves (some n)) = true) ∧
    (msg.2.hearsay = true → p.node? msg.2.id = none → cfg.isBootstrapAddr (msg.2.leaves none) = false →
      p.Spares cfg (msg.2.leaves none))

instance (p : Peers) (addr : String) : Decidable (p.Spares cfg addr) := inferInstanceAs (Decidable (_ ∧ _))

instance (p : Peers) (msg : Int × PeerOp) : Decidable (Restrained S cfg p msg) :=
  inferInstanceAs (Decidable (_ → _ ∧ _))

/-! ### Who stays -/

theorem node?_evict (h : p.node? id = some n) {id' : String} (hne : id ≠ id') : (p.evict id').node? id = some n := by
  rw [node?, evict, get?_delete_ne _ hne]
  exact h

theorem Drops.node? (h : Drops l full p q) (hn : p.node? id = some n)
    (hstays : full → ∀ m, Peers.stalest l = some m → m.id ≠ id) :
    q.node? id = some n := by
  cases h with
  | none => exact hn
  | stalest hfull hm => exact node?_evict hn (hstays hfull _ hm).symm

theorem Drops.len_le (h : Drops l full p q) : q.nodes.len ≤ p.nodes.len := by
  rw [len_eq_count, len_eq_count]
  cases h with
  | none => exact Nat.le_refl _
  | stalest => exact count_delete_le p.nodes _ _

theorem Admits.node? (h : Admits cfg p addr q) (hp : Named p) (hn : p.node? id = some n)
    (hstays : cfg.isBootstrapAddr n.address = true ∨ n.active = true ∧
      (cfg.isBootstrapAddr addr = false → p.Spares cfg addr)) :
    q.node? id = some n := by
  have hother : ∀ m ∈ p.others cfg, (n.active = true → m.active = false) ∨ cfg.isBootstrapAddr n.address =
      true → m.id ≠ id := by
    rintro m hm hspared rfl
    obtain ⟨hlisted, hstranger⟩ := mem_others hm
    cases (hp.node?_of_mem_listed hlisted).symm.trans hn
    rcases hstays with hhost | ⟨hactive, -⟩
    · exact Bool.false_ne_true (hstranger.symm.trans hhost)
    · rcases hspared with hspared | hhost
      · exact Bool.false_ne_true ((hspared hactive).symm.trans hactive)
      · exact Bool.false_ne_true (hstranger.symm.trans hhost)
  cases h with
  | anchor => exact hn
  | room haddr hr hq =>
    refine hq.node? (hr.node? hn fun hfull m hm => ?_) fun hfull m hm => ?_
    · refine hother m (mem_of_mem_filter (stalest_mem hm)) ?_
      rcases hstays with hhost | ⟨-, hspares⟩
      · exact .inr hhost
      · exact .inl fun _ => (hspares haddr).1 hfull m hm
    · refine hother m (stalest_mem hm) ?_
      rcases hstays with hhost | ⟨-, hspares⟩
      · exact .inr hhost
      · exact .inl fun _ => (hspares haddr).2 (Nat.le_trans hfull hr.len_le) m hm

theorem node?_add_of_some (hp : Named p) (hnew : p.nodes.get? m.id = none) (hn : p.node? id = some n) :
    (p.add m).node? id = some n := by
  obtain ⟨ref, href, hobj⟩ := bind_eq_some_iff.mp hn
  have hne : id ≠ m.id := by
    rintro rfl
    rw [hnew] at href
    cases href
  refine bind_eq_some_iff.mpr ⟨ref, ?_, ?_⟩
  · rw [add, get?_set_ne _ _ hne, href]
  · rw [add, getElem?_append_left (hp.lt href), hobj]

theorem node?_setObject_of_some {ref : Nat} (hm : p.objects[ref]? = some m) {k : Node} (hn : p.node? id = some n) :
    (p.setObject ref k).node? id = some n ∨ n = m ∧ (p.setObject ref k).node? id = some k := by
  obtain ⟨ref', href, hobj⟩ := bind_eq_some_iff.mp hn
  by_cases hr : ref = ref'
  · subst hr
    refine .inr ⟨mem_unique hobj hm, bind_eq_some_iff.mpr ⟨ref, href, ?_⟩⟩
    rw [setObject, getElem?_set', if_pos rfl, hm]
    rfl
  · refine .inl (bind_eq_some_iff.mpr ⟨ref', href, ?_⟩)
    rw [setObject, getElem?_set', if_neg hr, hobj]

theorem run_node? (now : Int) (hp : Named p) (hn : p.node? id = some n)
    (hstays : p.node? op.id = none → op.passes S cfg = true → cfg.isBootstrapAddr n.address = true ∨
      n.active = true ∧ (cfg.isBootstrapAddr (op.leaves none) = false → p.Spares cfg (op.leaves none))) :
    (op.run S cfg now p).node? id = some n ∨
    op.passes S cfg = true ∧ p.node? op.id = some n ∧ (op.run S cfg now p).node? id = some (op.change now n) := by
  have htold := run_told S cfg now p op
  generalize op.run S cfg now p = q at htold
  cases htold with
  | same => exact .inl hn
  | @updated ref m hpasses href hm =>
    rcases node?_setObject_of_some hm hn with hsame | ⟨rfl, hchanged⟩
    · exact .inl hsame
    · exact .inr ⟨hpasses, bind_eq_some_iff.mpr ⟨ref, href, hm⟩, hchanged⟩
  | @added q hpasses hnew hq =>
    have hadmits := admits_of_admitLocked hq
    have hnone : p.node? op.id = none := by rw [Peers.node?, hnew]; rfl
    refine .inl (node?_add_of_some (hp.fewer hadmits.fewer) ?_ (hadmits.node? hp hn (hstays hnone hpasses)))
    rw [PeerOp.fresh_id]
    exact get?_fewer hadmits.fewer hnew

/-- The node is in the table, at a bootstrap host. --/
def AtHost (cfg : PeerConfig) (p : Peers) (id : String) : Prop :=
  ∃ n, p.node? id = some n ∧ cfg.isBootstrapAddr n.address = true

theorem AtHost.hear {msg : Int × PeerOp} (h : AtHost cfg p id) (hp : Named p) (hmsg : Restrained S cfg p msg)
    (hq : hear S cfg p msg = some q) :
    AtHost cfg q id := by
  obtain ⟨n, hn, hhost⟩ := h
  cases hq
  rcases run_node? (S := S) msg.1 hp hn fun _ _ => .inl hhost with hsame | ⟨hpasses, hnode, hchanged⟩
  · exact ⟨n, hsame, hhost⟩
  · refine ⟨_, hchanged, ?_⟩
    rw [PeerOp.change_address]
    exact (hmsg hpasses).1 n hnode hhost

theorem Active.hear {msg : Int × PeerOp} (h : Active p id) (hp : Named p) (hmsg : Restrained S cfg p msg)
    (hhearsay : msg.2.hearsay = true) (hq : Peers.hear S cfg p msg = some q) : Active q id := by
  obtain ⟨n, hn, hactive⟩ := h
  cases hq
  rcases run_node? (S := S) msg.1 hp hn fun hnew hpasses => .inr ⟨hactive, (hmsg hpasses).2 hhearsay hnew⟩ with
    hsame | ⟨-, -, hchanged⟩
  · exact ⟨n, hsame, hactive⟩
  · refine ⟨_, hchanged, ?_⟩
    rw [PeerOp.change_active, PeerOp.verified_of_hearsay hhearsay, hactive]
    rfl

theorem Named.hear {msg : Int × PeerOp} (hp : Named p) (hq : Peers.hear S cfg p msg = some q) : Named q := by
  cases hq
  exact (run_writes S cfg msg.1 p msg.2).named hp

end Peers

/-- From every table, in every run of messages that move no peer away from a bootstrap host, whoever is at a bootstrap
    host stays in the table, whatever else is said and whoever is admitted. And no hearsay in the run removes an
    active peer, if none has to make room for the candidate. --/
theorem hearsay_spares {S : Signatures} {cfg : PeerConfig} {p q : Peers} {msgs : List (Int × PeerOp)} (hp : p.Named)
    (hrestrained : Along (Peers.hear S cfg) (Peers.Restrained S cfg) p msgs)
    (hrun : exec (Peers.hear S cfg) p msgs = some q) :
    (∀ id, p.AtHost cfg id → q.AtHost cfg id) ∧
    ∀ before msg after t u, msgs = before ++ msg :: after → exec (Peers.hear S cfg) p before = some t →
      Peers.hear S cfg t msg = some u →
      msg.2.hearsay = true → ∀ id, t.Active id → u.Active id := by
  constructor
  · intro id hid
    have hkept : q.Named ∧ q.AtHost cfg id := by
      refine exec_keeps_along (P := fun p => p.Named ∧ p.AtHost cfg id) ?_ ⟨hp, hid⟩ hrestrained hrun
      exact fun p msg q hmsg hp hq => ⟨hp.1.hear hq, hp.2.hear hp.1 hmsg hq⟩
    exact hkept.2
  · rintro before msg after t u rfl ht hu hhearsay id hactive
    have hnamed : t.Named := exec_keeps (P := Peers.Named) (fun _ _ _ hp hq => hp.hear hq) hp ht
    exact hactive.hear hnamed (hrestrained.of_append ht).2.1 hhearsay hu

/-! ### A peer at the bootstrap host -/

namespace Sybils

def anchored : Peers :=
  Peers.new.updateNode (config.peerConfig env) 1 ⟨sybil 0, site 0, [], number 0, 64512, [], [], []⟩

theorem anchored_named :
    anchored.Named := (Peers.run_writes sigs (config.peerConfig env) 1 Peers.new (.sight _ true)).named Peers.named_new

def rumour (i : Nat) : Int × PeerOp := (2, .gossip (record 1 (number i)) false)

/-- Seven that are only spoken of and one that is seen fill the subnet. --/
def crowd : List (Int × PeerOp) :=
  (List.range 7).map (fun i => rumour (i + 1)) ++ [(3, .sight ⟨sybil 9, site 1, [], number 9, 64512, [], [], []⟩ true)]

end Sybils

open Sybils

/-- A rumour about one more in the full subnet pushes out another that is only spoken of. --/
theorem hearsay_spares_anchor : anchored.AtHost (config.peerConfig env) (sybil 0) ∧ ∃ t u,
    exec (Peers.hear sigs (config.peerConfig env)) anchored crowd = some t ∧
    (t.neighbours (config.peerConfig env) (site 1)).length = maxPeersPerSubnet ∧ t.Active (sybil 9) ∧
    Peers.hear sigs (config.peerConfig env) t (rumour 8) = some u ∧ u.node? (sybil 7) = none ∧
      u.AtHost (config.peerConfig env) (sybil 0) ∧ u.Active (sybil 9) := by
  have hhost : (anchored.node? (sybil 0)).map (fun n => (config.peerConfig env).isBootstrapAddr n.address) =
      some true := by decide +kernel
  have hanchor : anchored.AtHost (config.peerConfig env) (sybil 0) := map_eq_some_iff.mp hhost
  have hrun : ((exec (Peers.hear sigs (config.peerConfig env)) anchored crowd).bind fun t =>
      (Peers.hear sigs (config.peerConfig env) t (rumour 8)).map fun u =>
        ((t.neighbours (config.peerConfig env) (site 1)).length, (t.node? (sybil 9)).map (·.active),
          (u.node? (sybil 7)).isNone)) = some (maxPeersPerSubnet, some true, true) := by decide +kernel
  obtain ⟨t, ht, hrun⟩ := bind_eq_some_iff.mp hrun
  obtain ⟨u, hu, heq⟩ := map_eq_some_iff.mp hrun
  obtain ⟨hfull, heq⟩ := Prod.mk.inj heq
  obtain ⟨hactive, hgone⟩ := Prod.mk.inj heq
  have hrestrained : Along (Peers.hear sigs (config.peerConfig env)) (Peers.Restrained sigs (config.peerConfig env))
      anchored (crowd ++ [rumour 8]) := by
    decide +kernel
  have hspares := hearsay_spares anchored_named hrestrained (exec_append.mpr ⟨t, ht, exec_cons.mpr ⟨u, hu, rfl⟩⟩)
  exact ⟨hanchor, t, u, ht, hfull, map_eq_some_iff.mp hactive, hu, isNone_iff_eq_none.mp hgone, hspares.1 _ hanchor,
    hspares.2 crowd _ [] t u rfl ht hu rfl (sybil 9) (map_eq_some_iff.mp hactive)⟩

/-- A third party says that the anchor is at another host, and then speaks of eight more there. The last of them takes
    the place of the anchor, which has been active all the time. --/
theorem hearsay_eclipses :
    anchored.AtHost (config.peerConfig env) (sybil 0) ∧ (∀ i, (rumour i).2.hearsay = true) ∧ ∃ t u,
    exec (Peers.hear sigs (config.peerConfig env)) anchored ((List.range 8).map rumour) = some t ∧ t.Active (sybil 0) ∧
    Peers.hear sigs (config.peerConfig env) t (rumour 8) = some u ∧ u.node? (sybil 0) = none ∧ ¬u.Active (sybil 8) := by
  have hhost : (anchored.node? (sybil 0)).map (fun n => (config.peerConfig env).isBootstrapAddr n.address) =
      some true := by decide +kernel
  have hrun : ((exec (Peers.hear sigs (config.peerConfig env)) anchored ((List.range 8).map rumour)).bind fun t =>
      (Peers.hear sigs (config.peerConfig env) t (rumour 8)).map fun u =>
        ((t.node? (sybil 0)).map (·.active), (u.node? (sybil 0)).isNone,
        (u.node? (sybil 8)).map (·.active))) = some (some true, true, some false) := by decide +kernel
  obtain ⟨t, ht, hrun⟩ := bind_eq_some_iff.mp hrun
  obtain ⟨u, hu, hflags⟩ := map_eq_some_iff.mp hrun
  obtain ⟨hactive, hflags⟩ := Prod.mk.inj hflags
  obtain ⟨hgone, hcandidate⟩ := Prod.mk.inj hflags
  refine ⟨map_eq_some_iff.mp hhost, fun _ => rfl, t, u, ht, map_eq_some_iff.mp hactive, hu,
    isNone_iff_eq_none.mp hgone, ?_⟩
  intro h
  rw [map_eq_some_iff.mpr h] at hcandidate
  cases hcandidate

end SyncSwarm.Discovery
