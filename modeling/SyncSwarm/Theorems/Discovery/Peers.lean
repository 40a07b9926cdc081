import SyncSwarm.Discovery.Peers

/-! What a message about a node does to the table of peers. -/

namespace SyncSwarm.Discovery
open Lib Protocol List Option GoMap

/-- A message about a node, first or second hand, or a record of it in gossip. --/
inductive PeerOp where
  | sight (s : Sighting) (verified : Bool)
  | gossip (pi : PeerInfo) (selfAttested : Bool)

namespace PeerOp

def run (S : Signatures) (cfg : PeerConfig) (now : Int) (p : Peers) : PeerOp → Peers
  | sight s verified => p.upsertNode cfg now s verified
  | gossip pi selfAttested => p.mergePeer S cfg now pi selfAttested

def id : PeerOp → String
  | sight s _ => s.nodeID
  | gossip pi _ => pi.nodeID

def pubKey : PeerOp → Bytes
  | sight s _ => s.pubKey
  | gossip pi _ => pi.pubKey

def mlkemPub : PeerOp → Bytes
  | sight s _ => s.mlkemPub
  | gossip pi _ => pi.mlkemPub

def verified : PeerOp → Bool
  | sight _ verified => verified
  | gossip _ _ => false

def met : PeerOp → List (String × String)
  | sight s true => [(s.nodeID, s.addr)]
  | _ => []

def fresh (now : Int) : PeerOp → Node
  | sight s verified => s.node now verified
  | gossip pi selfAttested => gossipNode pi now selfAttested

def change (now : Int) (n : Node) : PeerOp → Node
  | sight s verified => s.refresh now verified n
  | gossip pi selfAttested => gossipRefresh pi selfAttested n

def passes (S : Signatures) (cfg : PeerConfig) : PeerOp → Bool
  | sight s _ => s.nodeID ≠ cfg.selfID
  | gossip pi _ => pi.nodeID ≠ "" && pi.nodeID ≠ cfg.selfID && pi.nodeID = deriveNodeID S pi.signKey

def leaves : Option Node → PeerOp → String
  | none, sight s _ => s.addr
  | none, gossip pi _ => pi.address
  | some n, sight s verified => if verified then s.addr else if n.address = "" then s.addr else n.address
  | some n, gossip pi _ => if pi.address ≠ "" then pi.address else n.address

variable {op : PeerOp} {now : Int} {n : Node}

theorem fresh_address : (op.fresh now).address = op.leaves none := by cases op <;> rfl

theorem change_address : (op.change now n).address = op.leaves (some n) := by
  cases op with
  | sight s verified =>
    simp only [change, Sighting.refresh, leaves]
    by_cases hv : verified = true
    · rw [if_pos hv, if_pos hv]
    · rw [if_neg hv, if_neg hv]
      by_cases hblank : n.address = ""
      · rw [if_pos hblank]
        split
        · rfl
        · next h => exact hblank.trans (not_not.mp fun hne => h ⟨hblank, fun he => hne he.symm⟩)
      · rw [if_neg hblank, if_neg fun h => hblank h.1]
  | gossip => rfl

@[simp] theorem fresh_id : (op.fresh now).id = op.id := by cases op <;> rfl

@[simp] theorem fresh_pubKey : (op.fresh now).pubKey = op.pubKey := by cases op <;> rfl

@[simp] theorem fresh_mlkemPub : (op.fresh now).mlkemPub = op.mlkemPub := by cases op <;> rfl

@[simp] theorem fresh_active : (op.fresh now).active = op.verified := by cases op <;> rfl

theorem refresh_eq (now : Int) (n : Node) (s : Sighting) (verified : Bool) : ∃ address lastSeen active,
    active = (verified || n.active) ∧ s.refresh now verified n =
      { n with
        address, lastSeen, active
        pubKey := orOld s.pubKey n.pubKey
        signKey := orOld s.signKey n.signKey
        port := if s.port ≠ 0 then s.port else n.port
        capabilities := orOld s.capabilities n.capabilities
        mlkemPub := orOld s.mlkemPub n.mlkemPub
        relayIDs := orOld s.relayIDs n.relayIDs } := by
  rw [Sighting.refresh]
  split
  · next h => exact ⟨_, _, _, by rw [h]; rfl, rfl⟩
  next h =>
    have hactive : n.active = (verified || n.active) := by simp [h]
    split <;> exact ⟨_, _, _, hactive, rfl⟩

@[simp] theorem change_id : (op.change now n).id = n.id := by
  cases op with
  | sight s verified =>
    obtain ⟨_, _, _, -, heq⟩ := refresh_eq now n s verified
    rw [change, heq]
  | gossip => rfl

@[simp] theorem change_pubKey : (op.change now n).pubKey = orOld op.pubKey n.pubKey := by
  cases op with
  | sight s verified =>
    obtain ⟨_, _, _, -, heq⟩ := refresh_eq now n s verified
    rw [change, heq]
    rfl
  | gossip => rfl

@[simp] theorem change_mlkemPub : (op.change now n).mlkemPub = orOld op.mlkemPub n.mlkemPub := by
  cases op with
  | sight s verified =>
    obtain ⟨_, _, _, -, heq⟩ := refresh_eq now n s verified
    rw [change, heq]
    rfl
  | gossip => rfl

@[simp] theorem change_active : (op.change now n).active = (op.verified || n.active) := by
  cases op with
  | sight s verified =>
    obtain ⟨_, _, _, hactive, heq⟩ := refresh_eq now n s verified
    rw [change, heq]
    exact hactive
  | gossip => rfl

end PeerOp

namespace Peers
variable {cfg : PeerConfig} {now : Int} {p q : Peers} {id : String} {ref : Nat} {n m : Node} {op : PeerOp}

/-- Every entry of the table is a record of the node that it is filed under. --/
def Named (p : Peers) : Prop := ∀ id ref, p.nodes.get? id = some ref → ∃ n, p.objects[ref]? = some n ∧ n.id = id

/-- The node is in the table and active. --/
def Active (p : Peers) (id : String) : Prop := ∃ n, p.node? id = some n ∧ n.active = true

theorem named_new : Named new := by
  intro id ref h
  rw [new, get?_empty] at h
  cases h

theorem Named.id_eq (h : Named p) (href : p.nodes.get? id = some ref) (hn : p.objects[ref]? = some n) : n.id = id := by
  obtain ⟨m, hm, hid⟩ := h id ref href
  rw [hm] at hn
  exact Option.some.inj hn ▸ hid

theorem Named.node?_id (h : Named p) (hn : p.node? id = some n) : n.id = id := by
  obtain ⟨ref, href, hobj⟩ := bind_eq_some_iff.mp hn
  exact h.id_eq href hobj

theorem mem_objects_of_node? (hn : p.node? id = some n) : n ∈ p.objects := by
  obtain ⟨ref, -, hobj⟩ := bind_eq_some_iff.mp hn
  exact mem_of_getElem? hobj

/-! ### Evictions -/

structure Fewer (p q : Peers) : Prop where
  objects : q.objects = p.objects
  nodes : ∀ id ref, q.nodes.get? id = some ref → p.nodes.get? id = some ref
  contacts : q.contacts = p.contacts

theorem Fewer.refl (p : Peers) : Fewer p p := ⟨rfl, fun _ _ h => h, rfl⟩

theorem Fewer.evict (h : Fewer p q) (id : String) : Fewer p (q.evict id) := by
  refine ⟨h.objects, fun id' ref href => h.nodes id' ref ?_, h.contacts⟩
  by_cases hid : id' = id
  · rw [hid, Peers.evict, get?_delete_self] at href
    cases href
  · rwa [Peers.evict, get?_delete_ne _ hid] at href

theorem fewer_admitLocked {addr : String} (h : p.admitLocked cfg addr = some q) : Fewer p q := by
  rw [admitLocked] at h
  split at h
  · exact Option.some.inj h ▸ .refl p
  · obtain ⟨p₁, h₁, h₂⟩ := bind_eq_some_iff.mp h
    have hfirst : Fewer p p₁ := by
      split at h₁
      · obtain ⟨m, -, rfl⟩ := map_eq_some_iff.mp h₁
        exact (Fewer.refl p).evict m.id
      · exact Option.some.inj h₁ ▸ .refl p
    split at h₂
    · obtain ⟨m, -, rfl⟩ := map_eq_some_iff.mp h₂
      exact hfirst.evict m.id
    · exact Option.some.inj h₂ ▸ hfirst

/-! ### Messages -/

theorem contact_eq (s : Sighting) (verified : Bool) :
    p.contact verified s = { p with contacts := (PeerOp.sight s verified).met ++ p.contacts } := by
  cases verified <;> rfl

/-- What becomes of the table: nothing, a change of the node's record, or a new record where there is room. --/
inductive Told (S : Signatures) (cfg : PeerConfig) (p : Peers) (now : Int) (op : PeerOp) : Peers → Prop where
  | same : Told S cfg p now op p
  | updated {ref : Nat} {n : Node} : op.passes S cfg = true → p.nodes.get? op.id = some ref → p.objects[ref]? = some n →
    Told S cfg p now op { p.setObject ref (op.change now n) with contacts := op.met ++ p.contacts }
  | added {q : Peers} : op.passes S cfg = true → p.nodes.get? op.id = none →
    p.admitLocked cfg (op.leaves none) = some q →
    Told S cfg p now op { q.add (op.fresh now) with contacts := op.met ++ p.contacts }

theorem run_told (S : Signatures) (cfg : PeerConfig) (now : Int) (p : Peers) (op : PeerOp) :
    Told S cfg p now op (op.run S cfg now p) := by
  cases op with
  | sight s verified =>
    rw [PeerOp.run, upsertNode]
    split
    · exact .same
    next hself =>
    have hpasses : (PeerOp.sight s verified).passes S cfg = true := decide_eq_true hself
    split
    next ref href =>
      split
      next n hn =>
        rw [contact_eq]
        exact .updated hpasses href hn
      · exact .same
    next hnone =>
      split
      · exact .same
      next q hq =>
        rw [contact_eq, show (q.add (s.node now verified)).contacts = q.contacts from rfl,
          (fewer_admitLocked hq).contacts]
        exact .added hpasses hnone hq
  | gossip pi selfAttested =>
    rw [PeerOp.run, mergePeer]
    split
    · exact .same
    next hnamed =>
    split
    · exact .same
    next hbound =>
    obtain ⟨hempty, hself⟩ := not_or.mp hnamed
    have hpasses : (PeerOp.gossip pi selfAttested).passes S cfg = true := by
      simp only [PeerOp.passes, Bool.and_eq_true, decide_eq_true_eq]
      exact ⟨⟨hempty, hself⟩, not_not.mp hbound⟩
    split
    next ref href =>
      split
      next n hn =>
        split
        · exact .same
        · exact .updated hpasses href hn
      · exact .same
    next hnone =>
      split
      · exact .same
      next q hq =>
        have hadded : Told S cfg p now (.gossip pi selfAttested) _ := .added hpasses hnone hq
        rwa [← (fewer_admitLocked hq).contacts] at hadded

theorem run_refused {S : Signatures} {cfg : PeerConfig} {now : Int} {p : Peers} {op : PeerOp}
    (h : ¬op.passes S cfg = true) : op.run S cfg now p = p := by
  have htold := run_told S cfg now p op
  generalize op.run S cfg now p = q at htold ⊢
  cases htold with
  | same => rfl
  | updated hpasses | added hpasses => exact absurd hpasses h

/-- What a message about a node can do. --/
inductive Writes (p : Peers) (now : Int) (op : PeerOp) : Peers → Prop where
  | same : Writes p now op p
  | updated {ref : Nat} {n : Node} : p.nodes.get? op.id = some ref → p.objects[ref]? = some n →
    Writes p now op { p.setObject ref (op.change now n) with contacts := op.met ++ p.contacts }
  | added {q : Peers} : Fewer p q → Writes p now op { q.add (op.fresh now) with contacts := op.met ++ p.contacts }

theorem run_writes (S : Signatures) (cfg : PeerConfig) (now : Int) (p : Peers) (op : PeerOp) :
    Writes p now op (op.run S cfg now p) := by
  have h := run_told S cfg now p op
  generalize op.run S cfg now p = q at h
  cases h with
  | same => exact .same
  | updated _ href hn => exact .updated href hn
  | added _ _ hq => exact .added (fewer_admitLocked hq)

/-! ### What the messages keep -/

theorem Named.setObject (h : Named p) (hn : p.objects[ref]? = some n) (hid : m.id = n.id) :
    Named (p.setObject ref m) := by
  intro id' ref' href
  obtain ⟨n', hn', hid'⟩ := h id' ref' href
  by_cases hr : ref = ref'
  · subst hr
    cases hn.symm.trans hn'
    refine ⟨m, ?_, hid.trans hid'⟩
    rw [Peers.setObject, getElem?_set', if_pos rfl, hn]
    rfl
  · refine ⟨n', ?_, hid'⟩
    rw [Peers.setObject, getElem?_set', if_neg hr, hn']

theorem Named.lt (h : Named p) (href : p.nodes.get? id = some ref) : ref < p.objects.length := by
  obtain ⟨n, hn, -⟩ := h id ref href
  exact lt_of_getElem? hn

theorem Named.fewer (h : Named p) (hf : Fewer p q) : Named q := by
  intro id ref href
  rw [hf.objects]
  exact h id ref (hf.nodes id ref href)

theorem Named.add (h : Named p) (n : Node) : Named (p.add n) := by
  intro id ref href
  rw [Peers.add, get?_set] at href
  split at href
  next hid =>
    cases href
    exact ⟨n, by simp [Peers.add], hid.symm⟩
  · obtain ⟨m, hm, hid⟩ := h id ref href
    exact ⟨m, by rw [Peers.add, getElem?_append_left (h.lt href), hm], hid⟩

theorem Writes.named (h : Writes p now op q) (hp : Named p) : Named q := by
  cases h with
  | same => exact hp
  | updated href hn => exact hp.setObject hn PeerOp.change_id
  | added hf => exact (hp.fewer hf).add _

theorem Writes.objects {P : Node → Prop} (h : Writes p now op q) (hp : Named p) (hall : ∀ n ∈ p.objects, P n)
    (hchange : ∀ n, n.id = op.id → P n → P (op.change now n)) (hfresh : P (op.fresh now)) : ∀ n ∈ q.objects, P n := by
  cases h with
  | same => exact hall
  | updated href hn =>
    intro m hm
    rcases mem_or_eq_of_mem_set hm with hm | rfl
    · exact hall m hm
    · exact hchange _ (hp.id_eq href hn) (hall _ (mem_of_getElem? hn))
  | added hf =>
    intro m hm
    rcases mem_append.mp hm with hm | hm
    · exact hall m (hf.objects ▸ hm)
    · exact mem_singleton.mp hm ▸ hfresh

theorem active_setObject (hn : p.objects[ref]? = some n) (h : Active (p.setObject ref m) id) :
    Active p id ∨ p.node? id = some n ∧ m.active = true := by
  obtain ⟨k, hk, hactive⟩ := h
  obtain ⟨ref', href, hk⟩ := bind_eq_some_iff.mp hk
  have hget : p.nodes.get? id = some ref' := href
  by_cases hr : ref = ref'
  · subst hr
    rw [setObject, getElem?_set', if_pos rfl, hn] at hk
    obtain rfl : m = k := Option.some.inj hk
    exact .inr ⟨bind_eq_some_iff.mpr ⟨ref, hget, hn⟩, hactive⟩
  · rw [setObject, getElem?_set', if_neg hr] at hk
    exact .inl ⟨k, bind_eq_some_iff.mpr ⟨ref', hget, hk⟩, hactive⟩

theorem active_add (hp : Named p) (h : Active (p.add m) id) : Active p id ∨ id = m.id ∧ m.active = true := by
  obtain ⟨k, hk, hactive⟩ := h
  obtain ⟨ref, href, hk⟩ := bind_eq_some_iff.mp hk
  rw [add, get?_set] at href
  split at href
  next hid =>
    cases href
    obtain rfl : m = k := by simpa [add] using hk
    exact .inr ⟨hid, hactive⟩
  · rw [add, getElem?_append_left (hp.lt href)] at hk
    exact .inl ⟨k, bind_eq_some_iff.mpr ⟨ref, href, hk⟩, hactive⟩

theorem Fewer.active (hf : Fewer p q) (h : Active q id) : Active p id := by
  obtain ⟨k, hk, hactive⟩ := h
  obtain ⟨ref, href, hk⟩ := bind_eq_some_iff.mp hk
  exact ⟨k, bind_eq_some_iff.mpr ⟨ref, hf.nodes id ref href, hf.objects ▸ hk⟩, hactive⟩

theorem Writes.active (h : Writes p now op q) (hp : Named p) (hq : Active q id) :
    Active p id ∨ id = op.id ∧ op.verified = true := by
  cases h with
  | same => exact .inl hq
  | @updated ref n href hn =>
    rcases active_setObject hn hq with hactive | ⟨hnode, hactive⟩
    · exact .inl hactive
    · rw [PeerOp.change_active, Bool.or_eq_true] at hactive
      rcases hactive with hverified | hold
      · exact .inr ⟨(hp.node?_id hnode).symm.trans (hp.id_eq href hn), hverified⟩
      · exact .inl ⟨n, hnode, hold⟩
  | @added q hf =>
    rcases active_add (hp.fewer hf) hq with hactive | ⟨hid, hactive⟩
    · exact .inl (hf.active hactive)
    · exact .inr ⟨hid.trans PeerOp.fresh_id, PeerOp.fresh_active ▸ hactive⟩

theorem Writes.contacts (h : Writes p now op q) : q.contacts = p.contacts ∨ q.contacts = op.met ++ p.contacts := by
  cases h with
  | same => exact .inl rfl
  | updated | added => exact .inr rfl

/-! ### Several messages -/

def Keeps (p q : Peers) : Prop :=
  ∀ (ref : Nat) (n : Node), p.objects[ref]? = some n → ∃ m : Node, q.objects[ref]? = some m ∧ m.id = n.id

theorem Keeps.refl (p : Peers) : Keeps p p := fun _ n hn => ⟨n, hn, rfl⟩

theorem Keeps.trans {r : Peers} (hpq : Keeps p q) (hqr : Keeps q r) : Keeps p r := by
  intro ref n hn
  obtain ⟨m, hm, hmn⟩ := hpq ref n hn
  obtain ⟨k, hk, hkm⟩ := hqr ref m hm
  exact ⟨k, hk, hkm.trans hmn⟩

theorem keeps_setObject (hn : p.objects[ref]? = some n) (hid : m.id = n.id) : Keeps p (p.setObject ref m) := by
  intro ref' k hk
  by_cases hr : ref = ref'
  · subst hr
    cases hn.symm.trans hk
    refine ⟨m, ?_, hid⟩
    rw [setObject, getElem?_set', if_pos rfl, hn]
    rfl
  · refine ⟨k, ?_, rfl⟩
    rw [setObject, getElem?_set', if_neg hr, hk]

theorem Writes.keeps (h : Writes p now op q) : Keeps p q := by
  cases h with
  | same => exact .refl p
  | updated _ hn => exact keeps_setObject hn PeerOp.change_id
  | @added q hf =>
    intro ref n hn
    refine ⟨n, ?_, rfl⟩
    show (q.objects ++ [op.fresh now])[ref]? = some n
    rw [hf.objects, getElem?_append_left (lt_of_getElem? hn), hn]

section
variable (S : Signatures) (cfg : PeerConfig) (now : Int)

def runAll (p : Peers) (ops : List PeerOp) : Peers := ops.foldl (fun p o => o.run S cfg now p) p

theorem keeps_runAll (ops : List PeerOp) (p : Peers) : Keeps p (p.runAll S cfg now ops) := by
  induction ops generalizing p with
  | nil => exact .refl p
  | cons op ops ih => exact (run_writes S cfg now p op).keeps.trans (ih _)

variable {S cfg now}

theorem Named.runAll {ops : List PeerOp} {p : Peers} (hp : Named p) : Named (p.runAll S cfg now ops) := by
  induction ops generalizing p with
  | nil => exact hp
  | cons op ops ih => exact ih ((run_writes S cfg now p op).named hp)

theorem active_runAll {ops : List PeerOp} {p : Peers} (hp : Named p) (h : Active (p.runAll S cfg now ops) id) :
    Active p id ∨ ∃ op ∈ ops, id = op.id ∧ op.verified = true := by
  induction ops generalizing p with
  | nil => exact .inl h
  | cons op ops ih =>
    have hwrites := run_writes S cfg now p op
    rcases ih (hwrites.named hp) h with hactive | ⟨o, ho, hverified⟩
    · rcases hwrites.active hp hactive with hactive | hverified
      · exact .inl hactive
      · exact .inr ⟨op, mem_cons_self, hverified⟩
    · exact .inr ⟨o, mem_cons_of_mem op ho, hverified⟩

theorem contacts_runAll (ops : List PeerOp) (p : Peers) : ∃ new, (p.runAll S cfg now ops).contacts = new ++ p.contacts ∧
    ∀ e ∈ new, ∃ op ∈ ops, e.1 = op.id ∧ op.verified = true := by
  induction ops generalizing p with
  | nil => exact ⟨[], rfl, nofun⟩
  | cons op ops ih =>
    obtain ⟨new, hnew, hops⟩ := ih (op.run S cfg now p)
    have hlater : ∀ e ∈ new, ∃ o ∈ op :: ops, e.1 = o.id ∧ o.verified = true := by
      intro e he
      obtain ⟨o, ho, h⟩ := hops e he
      exact ⟨o, mem_cons_of_mem op ho, h⟩
    rcases (run_writes S cfg now p op).contacts with hsame | hmet
    · exact ⟨new, hnew.trans (by rw [hsame]), hlater⟩
    · refine ⟨new ++ op.met, hnew.trans (by rw [hmet, append_assoc]), fun e he => ?_⟩
      rcases mem_append.mp he with he | he
      · exact hlater e he
      · refine ⟨op, mem_cons_self, ?_⟩
        rcases op with ⟨s, verified⟩ | ⟨pi, selfAttested⟩
        · cases verified with
          | false => cases he
          | true =>
            obtain rfl := mem_singleton.mp he
            exact ⟨rfl, rfl⟩
        · cases he

end

end Peers
end SyncSwarm.Discovery
