import SyncSwarm.Theorems.Discovery.Table

/-! The limits of the table of peers: how many there are in a subnet, and in all. Both are tested
    when a peer is admitted. -/

set_option linter.dupNamespace false

namespace SyncSwarm.Discovery
open Lib Protocol List Option GoMap

namespace Peers
variable {S : Signatures} {cfg : PeerConfig} {now : Int} {p q r : Peers} {op : PeerOp} {addr key : String}
  {anchors : List String}

/-! ### Subnets -/

def inSubnet (cfg : PeerConfig) (key : String) (n : Node) : Bool := cfg.place n.address = some key

def Spread (cfg : PeerConfig) (p : Peers) : Prop := ∀ key, p.tally (inSubnet cfg key) ≤ maxPeersPerSubnet

/-- A message about a peer in the table leaves it in the subnet where it is. --/
def Settled (S : Signatures) (cfg : PeerConfig) (p : Peers) (op : PeerOp) : Prop :=
  op.passes S cfg = true → ∀ n ∈ p.node? op.id, cfg.place (op.leaves (some n)) = cfg.place n.address

instance (S : Signatures) (cfg : PeerConfig) (p : Peers) (op : PeerOp) : Decidable (Settled S cfg p op) :=
  inferInstanceAs (Decidable (_ → _))

theorem place_eq_some :
    cfg.place addr = some key ↔ cfg.isBootstrapAddr addr = false ∧ subnetKey cfg.net addr = key := by
  rw [PeerConfig.place]
  split
  · next h => simp [h]
  · next h => simp [h]

theorem length_neighbours (h : cfg.place addr = some key) :
    (p.neighbours cfg addr).length = p.tally (inSubnet cfg key) := by
  obtain ⟨-, rfl⟩ := place_eq_some.mp h
  rw [neighbours, others, List.filter_filter, ← countP_eq_length_filter, ← countP_listed cfg]
  refine countP_congr fun n _ => ?_
  simp only [inSubnet, Bool.and_eq_true, decide_eq_true_eq, place_eq_some, Bool.not_eq_true', and_comm]

theorem Admits.tally_lt (h : Admits cfg p addr q) (hp : Named p) (hspread : Spread cfg p)
    (hplace : cfg.place addr = some key) :
    q.tally (inSubnet cfg key) < maxPeersPerSubnet := by
  cases h with
  | anchor hanchor =>
    rw [(place_eq_some.mp hplace).1] at hanchor
    cases hanchor
  | room _ hr hq =>
    refine Nat.lt_of_le_of_lt (hq.tally_le _) ?_
    rw [length_neighbours hplace] at hr
    cases hr with
    | none hfull => exact Nat.not_le.mp hfull
    | @stalest n _ hn =>
      -- the one that is dropped is of the subnet
      obtain ⟨hother, hsame⟩ := mem_filter.mp (stalest_mem hn)
      obtain ⟨hlisted, hstranger⟩ := mem_others hother
      have hin : inSubnet cfg key n = true := by
        rw [inSubnet, decide_eq_true_eq, place_eq_some]
        exact ⟨hstranger, (of_decide_eq_true hsame).trans (place_eq_some.mp hplace).2⟩
      have hevict := tally_evict (hp.node?_of_mem_listed hlisted) (inSubnet cfg key)
      rw [hin, Bool.toNat_true] at hevict
      have hall := hspread key
      omega

theorem Spread.run (hp : Named p) (h : Spread cfg p) (hop : Settled S cfg p op) : Spread cfg (op.run S cfg now p) := by
  have htold := run_told S cfg now p op
  generalize op.run S cfg now p = q at htold
  intro key
  cases htold with
  | same => exact h key
  | @updated ref n hpasses href hn =>
    refine Nat.le_trans (Nat.le_of_eq (tally_setObject hn ?_)) (h key)
    have hplace := hop hpasses n (bind_eq_some_iff.mpr ⟨ref, href, hn⟩)
    rw [inSubnet, inSubnet, PeerOp.change_address, hplace]
  | @added q _ hnew hq =>
    have hadmits := admits_of_admitLocked hq
    rw [tally_added hp hnew hadmits.fewer]
    by_cases hkey : cfg.place (op.leaves none) = some key
    · have hlt := hadmits.tally_lt hp h hkey
      have hone := Bool.toNat_le (inSubnet cfg key (op.fresh now))
      omega
    · have hzero : inSubnet cfg key (op.fresh now) = false := decide_eq_false (by rwa [PeerOp.fresh_address])
      rw [hzero]
      exact Nat.le_trans (hadmits.tally_le _) (h key)

theorem Spread.setObject {ref : Nat} {n m : Node} (h : Spread cfg p) (hn : p.objects[ref]? = some n)
    (haddr : m.address = n.address) :
    Spread cfg (p.setObject ref m) := by
  intro key
  rw [tally_setObject hn (by rw [inSubnet, inSubnet, haddr])]
  exact h key

/-! ### The whole table -/

/-- A message leaves a node at a bootstrap host if, and only if, the node is one of the anchors. --/
def Anchored (anchors : List String) (S : Signatures) (cfg : PeerConfig) (p : Peers) (op : PeerOp) : Prop :=
  op.passes S cfg = true → (cfg.isBootstrapAddr (op.leaves (p.node? op.id)) = true ↔ op.id ∈ anchors)

instance (S : Signatures) (cfg : PeerConfig) (p : Peers) (op : PeerOp) : Decidable (Anchored anchors S cfg p op) :=
  inferInstanceAs (Decidable (_ → _))

def stranger (anchors : List String) (n : Node) : Bool := n.id ∉ anchors

/-- The invariant: only anchors are at bootstrap hosts. --/
structure Bounded (anchors : List String) (cfg : PeerConfig) (p : Peers) : Prop where
  named : Named p
  hosts : ∀ id n, p.node? id = some n → (cfg.isBootstrapAddr n.address = true ↔ id ∈ anchors)
  strangers : p.tally (stranger anchors) ≤ maxPeers

theorem Bounded.stranger_of_mem_others {n : Node} (h : Bounded anchors cfg p) (hn : n ∈ p.others cfg) :
    p.node? n.id = some n ∧ stranger anchors n = true := by
  obtain ⟨hlisted, hother⟩ := mem_others hn
  have hnode := h.named.node?_of_mem_listed hlisted
  refine ⟨hnode, decide_eq_true fun hmem => ?_⟩
  rw [(h.hosts n.id n hnode).mpr hmem] at hother
  cases hother

theorem tally_le_len (hp : Named p) (P : Node → Bool) : p.tally P ≤ p.nodes.len := by
  rw [len_eq_tally hp P]
  exact Nat.le_add_right _ _

/-- The second drop may be of a peer that the first has dropped. Then the first made the room. --/
theorem Bounded.tally_lt (h : Bounded anchors cfg p) (hadmits : Admits cfg p addr q)
    (haddr : cfg.isBootstrapAddr addr = false) :
    q.tally (stranger anchors) < maxPeers := by
  have hevict : ∀ {n}, n ∈ p.others cfg → (p.evict n.id).tally (stranger anchors) < maxPeers := by
    intro n hn
    obtain ⟨hnode, hstranger⟩ := h.stranger_of_mem_others hn
    have htally := tally_evict hnode (stranger anchors)
    rw [hstranger, Bool.toNat_true] at htally
    have hall := h.strangers
    omega
  cases hadmits with
  | anchor hanchor =>
    rw [haddr] at hanchor
    cases hanchor
  | room _ hr hq =>
    cases hr with
    | stalest _ hn => exact Nat.lt_of_le_of_lt (hq.tally_le _) (hevict (mem_of_mem_filter (stalest_mem hn)))
    | none =>
      cases hq with
      | none hfull => exact Nat.lt_of_le_of_lt (tally_le_len h.named _) (Nat.not_le.mp hfull)
      | stalest _ hn => exact hevict (stalest_mem hn)

theorem node?_setObject {ref : Nat} {n m k : Node} {id : String} (hn : p.objects[ref]? = some n)
    (h : (p.setObject ref m).node? id = some k) :
    p.node? id = some n ∧ k = m ∨ p.node? id = some k := by
  obtain ⟨ref', href, hk⟩ := bind_eq_some_iff.mp h
  rcases getElem?_set_eq_some hk with ⟨rfl, rfl⟩ | ⟨-, hk⟩
  · exact .inl ⟨bind_eq_some_iff.mpr ⟨ref, href, hn⟩, rfl⟩
  · exact .inr (bind_eq_some_iff.mpr ⟨ref', href, hk⟩)

theorem node?_add {n k : Node} {id : String} (hp : Named p) (h : (p.add n).node? id = some k) :
    id = n.id ∧ k = n ∨ p.node? id = some k := by
  obtain ⟨ref, href, hk⟩ := bind_eq_some_iff.mp h
  rw [add, get?_set] at href
  split at href
  next hid =>
    cases href
    rw [add, getElem?_concat_length] at hk
    exact .inl ⟨hid, (Option.some.inj hk).symm⟩
  · rw [add, getElem?_append_left (hp.lt href)] at hk
    exact .inr (bind_eq_some_iff.mpr ⟨ref, href, hk⟩)

theorem node?_fewer {n : Node} {id : String} (hf : Fewer p q) (h : q.node? id = some n) : p.node? id = some n := by
  obtain ⟨ref, href, hn⟩ := bind_eq_some_iff.mp h
  exact bind_eq_some_iff.mpr ⟨ref, hf.nodes id ref href, hf.objects ▸ hn⟩

theorem Bounded.run (h : Bounded anchors cfg p) (hop : Anchored anchors S cfg p op) :
    Bounded anchors cfg (op.run S cfg now p) := by
  have htold := run_told S cfg now p op
  have hnamed := (run_writes S cfg now p op).named h.named
  generalize op.run S cfg now p = q at htold hnamed
  cases htold with
  | same => exact h
  | @updated ref n hpasses href hn =>
    have hnode : p.node? op.id = some n := bind_eq_some_iff.mpr ⟨ref, href, hn⟩
    refine ⟨hnamed, fun id k hk => ?_, ?_⟩
    · rcases node?_setObject hn hk with ⟨hid, rfl⟩ | hk
      · rw [← h.named.node?_id hid, h.named.node?_id hnode, PeerOp.change_address, ← hnode]
        exact hop hpasses
      · exact h.hosts id k hk
    · refine Nat.le_trans (Nat.le_of_eq (tally_setObject hn ?_)) h.strangers
      rw [stranger, stranger, PeerOp.change_id]
  | @added q hpasses hnew hq =>
    have hadmits := admits_of_admitLocked hq
    have hnone : p.node? op.id = none := by rw [node?, hnew]; rfl
    have hhost := hop hpasses
    rw [hnone] at hhost
    refine ⟨hnamed, fun id k hk => ?_, ?_⟩
    · rcases node?_add (h.named.fewer hadmits.fewer) hk with ⟨rfl, rfl⟩ | hk
      · rwa [PeerOp.fresh_address, PeerOp.fresh_id]
      · exact h.hosts id k (node?_fewer hadmits.fewer hk)
    · rw [tally_added h.named hnew hadmits.fewer, stranger, PeerOp.fresh_id]
      by_cases hanchor : op.id ∈ anchors
      · rw [decide_eq_false (not_not_intro hanchor)]
        exact Nat.le_trans (hadmits.tally_le _) h.strangers
      · rw [decide_eq_true hanchor]
        exact h.tally_lt hadmits (eq_false_of_ne_true (mt hhost.mp hanchor))

theorem Bounded.setObject {ref : Nat} {n m : Node} (h : Bounded anchors cfg p) (hn : p.objects[ref]? = some n)
    (hid : m.id = n.id) (haddr : m.address = n.address) : Bounded anchors cfg (p.setObject ref m) := by
  refine ⟨h.named.setObject hn hid, fun id k hk => ?_, ?_⟩
  · rcases node?_setObject hn hk with ⟨hnode, rfl⟩ | hk
    · rw [haddr]
      exact h.hosts id n hnode
    · exact h.hosts id k hk
  · rw [tally_setObject hn (by rw [stranger, stranger, hid])]
    exact h.strangers

theorem Bounded.len_le (h : Bounded anchors cfg p) : p.nodes.len ≤ maxPeers + anchors.length := by
  rw [len_eq_tally h.named (stranger anchors)]
  refine Nat.add_le_add h.strangers
    (Nat.le_trans (Nat.le_of_eq (count_congr fun id ref href => ?_)) (count_mem_le p.nodes anchors))
  obtain ⟨n, hn, rfl⟩ := h.named id ref href
  rw [hn]
  simp [stranger]

end Peers

namespace Discovery
variable {env : Env} {cfg : Config} {w : Discovery} {capabilities : List String} {now : Int} {as : List Action}

/-- In every run in which no message moves a peer of the table to another subnet, no subnet holds more than eight
    peers that are not at bootstrap hosts. --/
theorem subnets_limited
    (hsettled : Along (next env cfg) (Hears env cfg (Peers.Settled env.sigs (cfg.peerConfig env)))
      (new capabilities now) as)
    (hrun : exec (next env cfg) (new capabilities now) as = some w) (key : String) :
    ((w.peers.listed (cfg.peerConfig env)).filter fun n =>
      !(cfg.peerConfig env).isBootstrapAddr n.address && subnetKey env.net n.address = key).length ≤
        maxPeersPerSubnet := by
  have hinv : w.peers.Named ∧ w.peers.Spread (cfg.peerConfig env) := by
    refine hears_keep (P := fun p => p.Named ∧ p.Spread (cfg.peerConfig env)) ?_ ?_
      ⟨Peers.named_new, fun _ => Nat.zero_le _⟩ hsettled hrun
    · exact fun p op now hop hp => ⟨(Peers.run_writes env.sigs _ now p op).named hp.1, hp.2.run hp.1 hop⟩
    · exact fun p ref n m hn hid haddr hp => ⟨hp.1.setObject hn hid, hp.2.setObject hn haddr⟩
  rw [← countP_eq_length_filter]
  refine Nat.le_trans (Nat.le_of_eq ?_) (hinv.2 key)
  rw [← Peers.countP_listed (cfg.peerConfig env)]
  refine countP_congr fun n _ => ?_
  simp only [Peers.inSubnet, Bool.and_eq_true, decide_eq_true_eq, Peers.place_eq_some, Bool.not_eq_true']
  rfl

/-- In every run in which at most as many nodes as there are bootstrap peers are said to be at bootstrap hosts, and
    always at these, the table holds at most those besides its limit. --/
theorem table_limited {anchors : List String} (hanchors : anchors.length ≤ cfg.bootstrapPeers.length)
    (hanchored : Along (next env cfg) (Hears env cfg (Peers.Anchored anchors env.sigs (cfg.peerConfig env)))
      (new capabilities now) as)
    (hrun : exec (next env cfg) (new capabilities now) as = some w) :
    w.peers.nodes.len ≤ maxPeers + cfg.bootstrapPeers.length := by
  have hinv : w.peers.Bounded anchors (cfg.peerConfig env) := by
    refine hears_keep (P := fun p => p.Bounded anchors (cfg.peerConfig env)) ?_ ?_
      ⟨Peers.named_new, ?_, Nat.zero_le _⟩ hanchored hrun
    · exact fun p op now hop hp => hp.run hop
    · exact fun p ref n m hn hid haddr hp => hp.setObject hn hid haddr
    · intro id n hn
      obtain ⟨ref, href, -⟩ := bind_eq_some_iff.mp hn
      cases href
  exact Nat.le_trans hinv.len_le (Nat.add_le_add_left hanchors _)

end Discovery
/-! ### Many identities

    An attacker makes as many keys as it likes. The hash keeps the keys apart, the attacker's signature is always the
    same, and a gossip message is one record: a byte for the place that it claims, and the key. -/

namespace Sybils

def sigs : Signatures where
  sha256 := .copy 32
  publicKey priv := priv.drop 32
  sign _ _ := List.replicate 64 7
  verify _ _ sig := sig = List.replicate 64 7

def site (place : UInt8) : String :=
  if place = 0 then "192.0.2.1:64512" else if place = 1 then "10.0.0.2:64512" else "10.0.1.2:64512"

def net : Net where
  splitHost addr :=
    if addr = site 0 then some "192.0.2.1" else if addr = site 1 then some "10.0.0.2" else
      if addr = site 2 then some "10.0.1.2" else none
  parseIP host :=
    if host = "192.0.2.1" then some ⟨some (192, 0, 2), ""⟩
    else if host = "10.0.0.2" then some ⟨some (10, 0, 0), ""⟩
    else if host = "10.0.1.2" then some ⟨some (10, 0, 1), ""⟩
    else none
  resolve := some

def record (place : UInt8) (key : Bytes) : PeerInfo :=
  { nodeID := deriveNodeID sigs key, address := site place, signKey := key, lastSeen := 2 }

def gossipCodec : Codec PeerExchangePayload where
  marshal px := px.peers.flatMap (·.signKey)
  unmarshal
    | place :: key => some ⟨[record place key]⟩
    | [] => none

def noCodec {α : Type} : Codec α := ⟨fun _ => [], fun _ => none⟩

def env : Env where
  sigs
  json := ⟨noCodec, noCodec, noCodec, gossipCodec, noCodec, noCodec⟩
  net
  timeText _ := []
  iter := .inOrder
  pathIter := .inOrder

def config : Config where
  selfID := "self"
  signPriv := []
  signPub := []
  pubKey := []
  mlkemPub := []
  port := 64512
  bootstrapPeers := ["192.0.2.1:64512"]
  iface := none

def udp : Interface := ⟨"udp0", .udp, 1200⟩

def gossip (place : UInt8) (key : Bytes) : SignedPacket where
  id := .copy 32 []
  type := .peerExchange
  timestamp := 1
  sourceNode := "attacker"
  payload := place :: key
  signerKey := List.replicate 32 9
  signature := List.replicate 64 7

def told (place : UInt8) (key : Bytes) : Discovery.Action := .frame "198.51.100.7:64512" udp (gossip place key) 0

/-! The names of the identities differ. -/

theorem hexDigit_inj {a b : UInt8} (ha : a.toNat < 16) (hb : b.toNat < 16) (h : hexDigit a = hexDigit b) : a = b := by
  have hdigits : ∀ i < 16, ∀ j < 16, hexDigit (UInt8.ofNat i) = hexDigit (UInt8.ofNat j) → i = j := by decide
  rw [← UInt8.ofNat_toNat (x := a), ← UInt8.ofNat_toNat (x := b)] at h
  exact UInt8.toNat.inj (hdigits _ ha _ hb h)

theorem hexString_inj {b c : Bytes} (h : hexString b = hexString c) : b = c := by
  have hchars := congrArg String.toList h
  rw [hexString, hexString, String.toList_ofList, String.toList_ofList] at hchars
  clear h
  induction b generalizing c with
  | nil =>
    cases c with
    | nil => rfl
    | cons y c => cases hchars
  | cons x b ih =>
    cases c with
    | nil => cases hchars
    | cons y c =>
      obtain ⟨hhigh, hchars⟩ := List.cons.inj hchars
      obtain ⟨hlow, hchars⟩ := List.cons.inj hchars
      have hdiv : ∀ z : UInt8, (z / 16).toNat < 16 := fun z => by
        rw [UInt8.toNat_div]
        exact Nat.div_lt_of_lt_mul z.toNat_lt
      have hmod : ∀ z : UInt8, (z % 16).toNat < 16 := fun z => by
        rw [UInt8.toNat_mod]
        exact Nat.mod_lt _ (by decide)
      have hhigh := congrArg UInt8.toNat (hexDigit_inj (hdiv x) (hdiv y) hhigh)
      have hlow := congrArg UInt8.toNat (hexDigit_inj (hmod x) (hmod y) hlow)
      rw [UInt8.toNat_div, UInt8.toNat_div] at hhigh
      rw [UInt8.toNat_mod, UInt8.toNat_mod] at hlow
      have hnat : x.toNat = y.toNat := by
        have h16 : (16 : UInt8).toNat = 16 := rfl
        rw [h16] at hhigh hlow
        omega
      rw [UInt8.toNat.inj hnat, ih hchars]

def number (i : Nat) : Bytes := [UInt8.ofNat (i / 256), UInt8.ofNat i]

def sybil (i : Nat) : String := deriveNodeID sigs (number i)

theorem sybil_inj {i j : Nat} (hi : i < 65536) (hj : j < 65536) (h : sybil i = sybil j) : i = j := by
  have hbytes : number i ++ List.replicate 14 0 = number j ++ List.replicate 14 0 := hexString_inj h
  obtain ⟨hhigh, hlow⟩ := List.cons.inj (append_cancel_right hbytes)
  have hhigh := congrArg UInt8.toNat hhigh
  have hlow := congrArg UInt8.toNat (List.cons.inj hlow).1
  rw [UInt8.toNat_ofNat', UInt8.toNat_ofNat'] at hhigh hlow
  omega

theorem sybil_ne {i : Nat} {s : String} (hs : s.toList.length ≠ 32) : sybil i ≠ s := by
  rintro rfl
  refine hs ?_
  rw [show sybil i = hexString (number i ++ List.replicate 14 0) from rfl, hexString, String.toList_ofList]
  rfl

end Sybils

namespace Discovery
open Sybils

/-- The subnet is full when the ninth peer comes to it from another one. --/
theorem subnet_exceeded : ∃ w, exec (next env config) (new [] 1)
      ((List.range 8).map (fun i => told 1 (number i)) ++ [told 2 (number 8), told 1 (number 8)]) = some w ∧
    ((w.peers.listed (config.peerConfig env)).filter fun n =>
      !(config.peerConfig env).isBootstrapAddr n.address && subnetKey env.net n.address = "v4:10.0.0").length = 9 := by
  refine map_eq_some_iff.mp (show Option.map _ _ = some 9 from ?_)
  decide +kernel

theorem subnets_limited_flood :
    ∃ w, exec (next env config) (new [] 1) ((List.range 9).map fun i => told 1 (number i)) = some w ∧
    ((w.peers.listed (config.peerConfig env)).filter fun n =>
      !(config.peerConfig env).isBootstrapAddr n.address && subnetKey env.net n.address = "v4:10.0.0").length ≤
        maxPeersPerSubnet := by
  have hsettled : Along (next env config) (Hears env config (Peers.Settled env.sigs (config.peerConfig env))) (new [] 1)
      ((List.range 9).map fun i => told 1 (number i)) := by decide +kernel
  have hrun : (exec (next env config) (new [] 1) ((List.range 9).map fun i => told 1 (number i))).isSome =
      true := by decide +kernel
  obtain ⟨w, hw⟩ := isSome_iff_exists.mp hrun
  exact ⟨w, hw, subnets_limited hsettled hw "v4:10.0.0"⟩

/-- One at the bootstrap host, nine in a subnet that takes eight, and one in another. --/
def mixed : List Action :=
  told 0 (number 0) :: (List.range 9).map (fun i => told 1 (number (i + 1))) ++ [told 2 (number 10)]

theorem table_limited_anchor : ∃ w, exec (next env config) (new [] 1) mixed = some w ∧ w.peers.nodes.len = 10 ∧
    w.peers.nodes.len ≤ maxPeers + config.bootstrapPeers.length := by
  have hanchored : Along (next env config)
      (Hears env config (Peers.Anchored [sybil 0] env.sigs (config.peerConfig env))) (new [] 1) mixed := by
    decide +kernel
  have hrun : (exec (next env config) (new [] 1) mixed).map (·.peers.nodes.len) = some 10 := by decide +kernel
  obtain ⟨w, hw, hlen⟩ := map_eq_some_iff.mp hrun
  exact ⟨w, hw, hlen, table_limited (show [sybil 0].length ≤ config.bootstrapPeers.length from Nat.le_refl 1)
    hanchored hw⟩

theorem receive_gossip {env : Env} {cfg : Config} {w : Discovery} {addr remoteAddr : String} {srcIface : Interface}
    {pkt : SignedPacket} {px : PeerExchangePayload} (nonce : UInt64)
    (hresolve : env.net.resolve addr = some remoteAddr) (htype : pkt.type = .peerExchange)
    (hv : pkt.verify env.sigs = true) (hpx : env.json.peerExchange.unmarshal pkt.payload = some px) :
    (w.receive env cfg addr srcIface pkt nonce).1.peers =
      w.peers.runAll env.sigs (cfg.peerConfig env) w.now (gossipOps env pkt px) := by
  have hcore : ∀ w' : Discovery, w'.core = w.core.hear pkt → w'.now = w.now →
      (w'.mergePeers env cfg pkt px).core.peers =
        w.peers.runAll env.sigs (cfg.peerConfig env) w.now (gossipOps env pkt px) := by
    intro w' hw hnow
    rw [core_mergePeers, hw, hnow]
    rfl
  rw [receive, hresolve]
  simp only [htype, hv, Bool.true_eq_false, if_false, handleSigned, hpx]
  refine hcore _ ?_ ?_
  · rw [core_rememberIface]
    show (w.rememberAddrIface addr srcIface).core.hear pkt = _
    rw [core_rememberAddrIface]
  · rw [now_rememberIface]
    exact now_rememberAddrIface _ _

theorem mergePeer_anchor {S : Signatures} {cfg : PeerConfig} {p : Peers} {pi : PeerInfo} (now : Int)
    (selfAttested : Bool) (hname : pi.nodeID ≠ "" ∧ pi.nodeID ≠ cfg.selfID)
    (hbound : pi.nodeID = deriveNodeID S pi.signKey) (hnew : p.nodes.get? pi.nodeID = none)
    (hhost : cfg.isBootstrapAddr pi.address = true) :
    p.mergePeer S cfg now pi selfAttested = p.add (gossipNode pi now selfAttested) := by
  rw [Peers.mergePeer, if_neg (not_or.mpr hname), if_neg (not_not_intro hbound), hnew, Peers.admitLocked, if_pos hhost]

theorem sybils_enter {n : Nat} (hn : n ≤ 65536) :
    ∃ w, exec (next env config) (new [] 1) ((List.range n).map fun i => told 0 (number i)) = some w ∧
    w.peers.nodes.len = n ∧ ∀ id, (w.peers.nodes.get? id).isSome → ∃ i < n, id = sybil i := by
  induction n with
  | zero =>
    refine ⟨_, rfl, rfl, fun id h => ?_⟩
    rw [show (new [] 1).peers.nodes.get? id = none from get?_empty id] at h
    cases h
  | succ n ih =>
    obtain ⟨w, hrun, hlen, hnames⟩ := ih (Nat.le_of_succ_le hn)
    have hnew : w.peers.nodes.get? (sybil n) = none := by
      rw [← not_isSome_iff_eq_none]
      intro h
      obtain ⟨i, hi, hid⟩ := hnames _ h
      have := sybil_inj (by omega) (by omega) hid
      omega
    have hpeers : ∃ selfAttested, (w.receive env config "198.51.100.7:64512" udp (gossip 0 (number n)) 0).1.peers =
        w.peers.add (gossipNode (record 0 (number n)) w.now selfAttested) := by
      rw [receive_gossip 0 rfl rfl rfl rfl]
      have hhost : (config.peerConfig env).isBootstrapAddr (site 0) = true := by decide +kernel
      exact ⟨_, mergePeer_anchor w.now _ ⟨sybil_ne (by decide), sybil_ne (by decide)⟩ rfl hnew hhost⟩
    obtain ⟨selfAttested, hpeers⟩ := hpeers
    refine ⟨(w.receive env config "198.51.100.7:64512" udp (gossip 0 (number n)) 0).1, ?_, ?_, ?_⟩
    · rw [range_succ, map_append]
      exact exec_append.mpr ⟨w, hrun, exec_single.mpr rfl⟩
    · rw [hpeers]
      exact (len_set hnew _).trans (congrArg (· + 1) hlen)
    · intro id h
      rw [hpeers, Peers.add, get?_set] at h
      split at h
      · next hid => exact ⟨n, Nat.lt_succ_self n, hid⟩
      · obtain ⟨i, hi, hid⟩ := hnames id h
        exact ⟨i, Nat.lt_succ_of_lt hi, hid⟩

/-- The attacker's identities, all said to be at the bootstrap host, are more than the table should hold. --/
theorem table_exceeded :
    ∃ w, exec (next env config) (new [] 1) ((List.range 514).map fun i => told 0 (number i)) = some w ∧
    maxPeers + config.bootstrapPeers.length < w.peers.nodes.len := by
  obtain ⟨w, hrun, hlen, -⟩ := sybils_enter (show 514 ≤ 65536 by decide)
  exact ⟨w, hrun, by rw [hlen]; decide⟩

end Discovery
end SyncSwarm.Discovery
