import SyncSwarm.Theorems.Discovery.Moves

/-! Where the keys in the table of peers come from: from the nodes themselves, as long as nobody else's records about
    them carry other keys. -/

set_option linter.dupNamespace false

namespace SyncSwarm.Discovery
open Lib Protocol List Option

section
variable (env : Env) (signed : Bytes → Bytes → Prop)

/-- What a message says about the X25519 key and the ML-KEM key of a node. --/
inductive States : Bytes → String → Bytes → Bytes → Prop where
  | announce (ap : AnnouncePayload) : States ap.signedBytes ap.destHash ap.pubKey ap.mlkemPub
  | discovery {pkt : SignedPacket} {payload : DiscoveryPayload} : pkt.type = .discovery ∨ pkt.type = .latencyCheck →
    env.json.discovery.unmarshal pkt.payload = some payload →
    States pkt.canonicalBytes payload.nodeID payload.pubKey payload.mlkemPub
  | findNode {pkt : SignedPacket} {fn : FindNodePayload} : pkt.type = .findNode →
    env.json.findNode.unmarshal pkt.payload = some fn → States pkt.canonicalBytes fn.nodeID fn.pubKey []
  | gossip {pkt : SignedPacket} {px : PeerExchangePayload} {pi : PeerInfo} : pkt.type = .peerExchange →
    env.json.peerExchange.unmarshal pkt.payload = some px → pi ∈ px.peers →
    States pkt.canonicalBytes pi.nodeID pi.pubKey pi.mlkemPub

/-- The node has stated the key in a message under its own signature; `signed` holds of the keys and of the messages
    that their owners have signed. --/
def StatedPub (id : String) (key : Bytes) : Prop :=
  ∃ signKey msg kem, deriveNodeID env.sigs signKey = id ∧ signed signKey msg ∧ States env msg id key kem

def StatedKem (id : String) (key : Bytes) : Prop :=
  ∃ signKey msg pub, deriveNodeID env.sigs signKey = id ∧ signed signKey msg ∧ States env msg id pub key

/-- A key is absent or one that the node has stated. --/
def Own (id : String) (pub kem : Bytes) : Prop :=
  (pub = [] ∨ StatedPub env signed id pub) ∧ (kem = [] ∨ StatedKem env signed id kem)

/-- What verifies was signed by the owner of the key. --/
def Unforgeable : Prop := ∀ key msg sig, env.sigs.verify key msg sig = true → signed key msg

end

section
variable {env : Env} {signed : Bytes → Bytes → Prop}

theorem own_of_states {signKey msg pub kem : Bytes} {id : String} (hid : deriveNodeID env.sigs signKey = id)
    (hsigned : signed signKey msg) (h : States env msg id pub kem) : Own env signed id pub kem :=
  ⟨.inr ⟨signKey, msg, kem, hid, hsigned, h⟩, .inr ⟨signKey, msg, pub, hid, hsigned, h⟩⟩

theorem Own.orOld {id : String} {pub kem pub' kem' : Bytes} (hnew : Own env signed id pub kem)
    (hold : Own env signed id pub' kem') :
    Own env signed id (orOld pub pub') (orOld kem kem') := by
  constructor
  · rw [Discovery.orOld]
    split
    · exact hnew.1
    · exact hold.1
  · rw [Discovery.orOld]
    split
    · exact hnew.2
    · exact hold.2

theorem verify_of_verifies {S : Signatures} {key msg sig : Bytes} (h : S.verifies key msg sig = true) :
    S.verify key msg sig = true := by
  rw [Signatures.verifies, Bool.and_eq_true] at h
  exact h.2

theorem Unforgeable.packet (hsig : Unforgeable env signed) {pkt : SignedPacket} (h : pkt.verify env.sigs = true) :
    signed pkt.signerKey pkt.canonicalBytes := hsig _ _ _ (verify_of_verifies h)

theorem Unforgeable.announce (hsig : Unforgeable env signed) {ap : AnnouncePayload}
    (h : ap.verifyBound env.sigs = true) :
    deriveNodeID env.sigs ap.signKey = ap.destHash ∧ signed ap.signKey ap.signedBytes := by
  simp only [AnnouncePayload.verifyBound, Bool.and_eq_true, decide_eq_true_eq] at h
  exact ⟨h.1.2, hsig _ _ _ (verify_of_verifies h.2)⟩

end

namespace Discovery
variable {env : Env} {cfg : Config} {w u : Discovery} {a : Action} {signed : Bytes → Bytes → Prop}

/-- The records of a gossip message about nodes other than the one that signed it, and the contacts of an answer to
    FIND_NODE, carry no key that their nodes have not stated, unless the packet or the record is refused. --/
def Faithful (env : Env) (cfg : Config) (signed : Bytes → Bytes → Prop) (_ : Discovery) : Action → Prop
  | .frame _ _ pkt _ => pkt.verify env.sigs = true →
    (pkt.type = .peerExchange → ∀ px, env.json.peerExchange.unmarshal pkt.payload = some px →
      ∀ pi ∈ px.peers.take maxGossipAccept, pi.nodeID ≠ "" → pi.nodeID ≠ cfg.selfID →
        pi.nodeID = deriveNodeID env.sigs pi.signKey → pi.nodeID ≠ pkt.signerID env.sigs →
          Own env signed pi.nodeID pi.pubKey pi.mlkemPub) ∧
    (pkt.type = .findNodeReply → ∀ fr, env.json.findNodeReply.unmarshal pkt.payload = some fr →
      ∀ c ∈ fr.contacts, c.nodeID ≠ "" → c.nodeID ≠ cfg.selfID → deriveNodeID env.sigs c.signKey = c.nodeID →
        Own env signed c.nodeID c.pubKey c.mlkemPub)
  | _ => True

structure KeysOwn (env : Env) (signed : Bytes → Bytes → Prop) (p : Peers) : Prop where
  named : p.Named
  own : ∀ n ∈ p.objects, Own env signed n.id n.pubKey n.mlkemPub

theorem KeysOwn.run {p : Peers} {op : PeerOp} {now : Int} (h : KeysOwn env signed p)
    (hop : op.passes env.sigs (cfg.peerConfig env) = true → Own env signed op.id op.pubKey op.mlkemPub) :
    KeysOwn env signed (op.run env.sigs (cfg.peerConfig env) now p) := by
  by_cases hpasses : op.passes env.sigs (cfg.peerConfig env) = true
  case neg => rwa [Peers.run_refused hpasses]
  have hop := hop hpasses
  have hwrites := Peers.run_writes env.sigs (cfg.peerConfig env) now p op
  refine ⟨hwrites.named h.named, hwrites.objects h.named h.own ?_ ?_⟩
  · intro n hid hn
    rw [PeerOp.change_id, PeerOp.change_pubKey, PeerOp.change_mlkemPub]
    rw [hid] at hn ⊢
    exact hop.orOld hn
  · rwa [PeerOp.fresh_id, PeerOp.fresh_pubKey, PeerOp.fresh_mlkemPub]

theorem KeysOwn.runAll {ops : List PeerOp} {now : Int}
    (hops : ∀ op ∈ ops, op.passes env.sigs (cfg.peerConfig env) = true → Own env signed op.id op.pubKey op.mlkemPub)
    {p : Peers} (h : KeysOwn env signed p) : KeysOwn env signed (p.runAll env.sigs (cfg.peerConfig env) now ops) := by
  induction ops generalizing p with
  | nil => exact h
  | cons op ops ih =>
    exact ih (fun o ho => hops o (mem_cons_of_mem op ho)) (h.run (hops op mem_cons_self))

theorem KeysOwn.conclude (h : KeysOwn env signed w.peers) (x : Probe) (latency : Int) :
    KeysOwn env signed (w.concludeProbe x latency) := by
  rcases concludeProbe_cases w x latency with hsame | ⟨ref, n, lat, active, lastSeen, -, hn, hset, -⟩
  · rwa [hsame]
  · rw [hset]
    refine ⟨h.named.setObject hn rfl, fun m hm => ?_⟩
    rcases mem_or_eq_of_mem_set hm with hm | rfl
    · exact h.own m hm
    · exact h.own n (mem_of_getElem? hn)

theorem Handles.keysOwn {now : Int} {remoteAddr addr : String} {srcIface : Interface} {pkt : SignedPacket}
    {nonce : UInt64} {c c' : Core} (hsig : Unforgeable env signed)
    (h : Handles env cfg now remoteAddr srcIface pkt c c')
    (hfaithful : Faithful env cfg signed w (.frame addr srcIface pkt nonce)) (hc : KeysOwn env signed c.peers) :
    KeysOwn env signed c'.peers := by
  cases h with
  | dropped | heard | routed => exact hc
  | @gossiped px hv htype hpx =>
    refine hc.runAll fun op hop => ?_
    obtain ⟨pi, hpi, rfl⟩ := mem_map.mp hop
    intro hpasses
    simp only [PeerOp.passes, Bool.and_eq_true, decide_eq_true_eq] at hpasses
    by_cases hid : pi.nodeID = pkt.signerID env.sigs
    · exact own_of_states hid.symm (hsig.packet hv) (.gossip htype hpx (mem_of_mem_take hpi))
    · exact (hfaithful hv).1 htype px hpx pi hpi hpasses.1.1 hpasses.1.2 hpasses.2 hid
  | asked hv htype hfn hbound =>
    rw [Core.peers_op]
    exact hc.run fun _ => own_of_states hbound.symm (hsig.packet hv) (.findNode htype hfn)
  | @contacts fr hv htype hfr =>
    refine hc.runAll fun op hop => ?_
    obtain ⟨c, hmem, rfl⟩ := mem_map.mp hop
    intro _
    obtain ⟨hmem, hkept⟩ := mem_filter.mp hmem
    simp only [Bool.and_eq_true, Bool.not_eq_true', decide_eq_true_eq, decide_eq_false_iff_not, not_or] at hkept
    exact (hfaithful hv).2 htype fr hfr c hmem hkept.1.1 hkept.1.2.1 hkept.2
  | @announced ap _ _ _ _ hbound =>
    obtain ⟨hid, hsigned⟩ := hsig.announce hbound
    rw [Core.peers_path, Core.peers_op]
    exact hc.run fun _ => own_of_states hid hsigned (.announce ap)
  | discovered hv htype hpayload hbound =>
    rw [Core.peers_op]
    exact hc.run fun _ => own_of_states hbound.symm (hsig.packet hv) (.discovery htype hpayload)
  | replied | routedReply => rwa [Core.peers_reply]
  | routedPeer _ _ hv _ htype hpayload hbound =>
    rw [Core.peers_op, Core.peers_path]
    exact hc.run fun _ => own_of_states hbound.symm (hsig.packet hv) (.discovery (.inl htype) hpayload)

/-- In every run in which the others' records are faithful, the keys in the table are the nodes' own. --/
theorem keys_own {capabilities : List String} {now : Int} {as : List Action} (hsig : Unforgeable env signed)
    (hfaithful : Along (next env cfg) (Faithful env cfg signed) (new capabilities now) as)
    (hrun : exec (next env cfg) (new capabilities now) as = some w) {id : String} {n : Node}
    (hn : w.peers.node? id = some n) :
    Own env signed id n.pubKey n.mlkemPub := by
  have hinv : KeysOwn env signed w.peers := by
    refine exec_keeps_along (P := fun w => KeysOwn env signed w.peers) ?_
      ⟨Peers.named_new, fun n hn => absurd hn not_mem_nil⟩ hfaithful hrun
    intro w a u ha hw hstep
    have hmoves := step_cases hstep
    show KeysOwn env signed u.core.peers
    generalize u.core = c at hmoves
    cases hmoves with
    | handled _ hhandles => exact hhandles.keysOwn hsig ha hw
    | concluded => exact hw.conclude _ _
    | _ => exact hw
  rw [← hinv.named.node?_id hn]
  exact hinv.own n (Peers.mem_objects_of_node? hn)

end Discovery

/-! ### Three nodes

A node, a peer and a third party, with values of Ed25519, SHA-256 and JSON. -/

namespace Trio

def selfID : String := "34750f98bd59fcfc946da45aaabe933b"
def thirdID : String := "6a3803d5f059902a1c6dafbc9ba47292"
def peerID : String := "b62e867fa2f33afe62d5d6b1642e1621"

def thirdKey : Bytes := beBytes 32 0x8139770ea87d175f56a35466c34c7ecccb8d8a91b4ee37a25df60f5b8fc9b394

def peerKey : Bytes := beBytes 32 0xed4928c628d1c2c6eae90338905995612959273a5c63f93636c14614ac8737d1

def thirdHash : Bytes := beBytes 32 0x6a3803d5f059902a1c6dafbc9ba4729212f7caac08634cc3ae76b27529f03827

def peerHash : Bytes := beBytes 32 0xb62e867fa2f33afe62d5d6b1642e1621d543307846b2a57b897e710919b76709

def peerPub : Bytes := beBytes 32 0x31d4ab6aceec961137917037936e60716fac573afe94d9da84a8020448dfc112

def otherPub : Bytes := beBytes 32 0x57db4b359f23ae5e146e4e2512056704722506348c150c14753d0c933d04d421

def sigsOf (table : List (Bytes × Bytes × Bytes)) (hashes : List (Bytes × Bytes)) : Signatures where
  sha256 b := .copy 32
    (((((peerKey, peerHash) :: (thirdKey, thirdHash) :: hashes).find? fun e => e.1 = b).map (·.2)).getD [])
  publicKey priv := priv.drop 32
  sign priv msg := ((table.find? fun e => e.1 = priv.drop 32 ∧ e.2.1 = msg).map (·.2.2)).getD []
  verify key msg sig := table.any fun e => e.1 = key ∧ e.2.1 = msg ∧ e.2.2 = sig

def codecOf {α : Type} [DecidableEq α] (table : List (α × Bytes)) : Codec α where
  marshal x := ((table.find? fun e => e.1 = x).map (·.2)).getD []
  unmarshal b := (table.find? fun e => e.2 = b).map (·.1)

def noJson : Json := ⟨codecOf [], codecOf [], codecOf [], codecOf [], codecOf [], codecOf []⟩

def peerAddr : String := "203.0.113.3:64512"
def thirdAddr : String := "203.0.113.2:64512"

def start : Int := 1767225600000000000

def startText : Bytes :=
  beBytes 32 0x323032362d30312d30312030303a30303a3030202b3030303020555443206d3d ++
  beBytes 12 0x2b312e303030303030303030

def envOf (table : List (Bytes × Bytes × Bytes)) (hashes : List (Bytes × Bytes)) (json : Json) : Env where
  sigs := sigsOf table hashes
  json
  net :=
    { splitHost := fun addr =>
        if addr = peerAddr then some "203.0.113.3" else if addr = thirdAddr then some "203.0.113.2" else none
      parseIP := fun host => if host = "203.0.113.3" ∨ host = "203.0.113.2" then some ⟨some (203, 0, 113), ""⟩ else none
      resolve := some }
  timeText t := if t = start then startText else []
  iter := .inOrder
  pathIter := .inOrder

def udp : Interface := ⟨"udp0", .udp, 1200⟩

def config : Config where
  selfID
  signPriv :=
    List.replicate 32 1 ++ beBytes 32 0x8a88e3dd7409f195fd52db2d3cba5d72ca6709bf1d94121bf3748801b40f6f5c
  signPub :=
    beBytes 32 0x8a88e3dd7409f195fd52db2d3cba5d72ca6709bf1d94121bf3748801b40f6f5c
  pubKey := []
  mlkemPub := []
  port := 0
  bootstrapPeers := []
  iface := some udp

def peerJson : Bytes :=
  beBytes 48 0x7b224e6f64654944223a226236326538363766613266333361666536326435643662313634326531363231222c225665 ++
  beBytes 48 0x7273696f6e223a22312e302e30222c224361706162696c6974696573223a6e756c6c2c22506f7274223a343030302c22 ++
  beBytes 48 0x4e6f6e6365223a302c225075624b6579223a224d645372617337736c6845336b5841336b32356763572b73567a722b6c ++
  beBytes 48 0x4e6e61684b674342456a667752493d222c225369676e4b6579223a2237556b6f78696a527773627136514d346b466d56 ++
  beBytes 48 0x59536c5a4a7a7063592f6b324e734647464b79484e39453d222c224f6273657276656441646472223a22222c2252656c ++
  beBytes 28 0x6179494473223a6e756c6c2c224d4c4b454d507562223a6e756c6c7d

def peerPayload : DiscoveryPayload :=
  { nodeID := peerID, version := "1.0.0", port := 4000, pubKey := peerPub, signKey := peerKey }

def peerPacket : SignedPacket where
  id := .copy 32 (beBytes 32 0x056e9613b00e5151ad8224b40ec9263af0568c906a5b3affe6b1df13254355a5)
  type := .discovery
  timestamp := start
  sourceNode := peerID
  destGroup := "ANY"
  payloadSize := 268
  payload := peerJson
  signerKey := peerKey
  signature :=
    beBytes 32 0xfbfb01e3485db219ea708cf1f94f40356e43413ceba1906e254bfc6a1b8cd515 ++
    beBytes 32 0x19ca8567712789963d3a969f0d0e26b95f4235877c45e73a80df5744736f5b04

def record (pubKey : Bytes) : PeerInfo :=
  { nodeID := peerID, address := peerAddr, pubKey, signKey := peerKey, port := 4000, lastSeen := start }

def recordText (key : Bytes) : Bytes :=
  beBytes 48 0x7b225065657273223a5b7b224e6f64654944223a22623632653836376661326633336166653632643564366231363432 ++
  beBytes 47 0x6531363231222c2241646472657373223a223230332e302e3131332e333a3634353132222c225075624b6579223a22 ++
  key ++
  beBytes 48 0x222c225369676e4b6579223a2237556b6f78696a527773627136514d346b466d5659536c5a4a7a7063592f6b324e7346 ++
  beBytes 48 0x47464b79484e39453d222c22506f7274223a343030302c224361706162696c6974696573223a6e756c6c2c2252656c61 ++
  beBytes 48 0x79494473223a6e756c6c2c224d4c4b454d507562223a6e756c6c2c224c6173745365656e223a22323032362d30312d30 ++
  beBytes 15 0x315430303a30303a30305a227d5d7d

def recordJson : Bytes :=
  recordText (beBytes 44 0x4d645372617337736c6845336b5841336b32356763572b73567a722b6c4e6e61684b674342456a667752493d)

def recordPacket : SignedPacket where
  id := .copy 32 (beBytes 32 0x3337cf55acc431d7b77a4bb75ad179cdd7956e9e4acbead59d59a3cd46d8b309)
  type := .peerExchange
  timestamp := start
  sourceNode := thirdID
  destGroup := "ANY"
  payloadSize := 298
  payload := recordJson
  signerKey := thirdKey
  signature :=
    beBytes 32 0x9a67c36fb65ded707c61ec38b9850bfea8bceca7fccea37580b9f35b5b89beb5 ++
    beBytes 32 0xd933a2b20382ffd4a2916613d08a4ad06fc87fea5569a228b6e9b6567d60af05

def otherJson : Bytes :=
  recordText (beBytes 44 0x5639744c4e5a386a726c3455626b346c4567566e4248496c426a534d465177556454304d6b7a30453143453d)

def otherPacket : SignedPacket where
  id := .copy 32 (beBytes 32 0xef41cff8096841bf96fa39061d79687dd7f3f836f29798382ffa4661e2bb9f2a)
  type := .peerExchange
  timestamp := start
  sourceNode := thirdID
  destGroup := "ANY"
  payloadSize := 298
  payload := otherJson
  signerKey := thirdKey
  signature :=
    beBytes 32 0xc34934ca6f758f6e11d7683c32e88ba6d6ae115226f0b25b09a75ee1b9037a9f ++
    beBytes 32 0x14e65e7bb6009526089c55263d5e0c6b366b8a3c4114be15fed7a6add41af301

def env : Env :=
  envOf
    [(peerKey, peerPacket.canonicalBytes, peerPacket.signature),
      (thirdKey, recordPacket.canonicalBytes, recordPacket.signature)]
    []
    { noJson with
      discovery := codecOf [(peerPayload, peerJson)]
      peerExchange := codecOf [(⟨[record peerPub]⟩, recordJson)] }

def otherEnv : Env :=
  envOf [(thirdKey, otherPacket.canonicalBytes, otherPacket.signature)] []
    { noJson with peerExchange := codecOf [(⟨[record otherPub]⟩, otherJson)] }

def frames : List Discovery.Action := [.frame peerAddr udp peerPacket 0, .frame thirdAddr udp recordPacket 0]

end Trio

namespace Discovery
open Trio

def Verified (env : Env) (key msg : Bytes) : Prop := ∃ sig, env.sigs.verify key msg sig = true

theorem unforgeable_verified (env : Env) : Unforgeable env (Verified env) := fun _ _ sig h => ⟨sig, h⟩

theorem faithful_frames : Along (next env config) (Faithful env config (Verified env)) (new [] start) frames := by
  have hkeys : Own env (Verified env) peerID peerPub [] := by
    have hpayload : env.json.discovery.unmarshal peerPacket.payload = some peerPayload := by decide +kernel
    have hstates : States env peerPacket.canonicalBytes peerID peerPub [] := .discovery (.inl rfl) hpayload
    exact own_of_states (by decide +kernel : deriveNodeID env.sigs peerKey = peerID)
      ⟨peerPacket.signature, by decide +kernel⟩ hstates
  have hrecord : env.json.peerExchange.unmarshal recordPacket.payload = some ⟨[record peerPub]⟩ := by decide +kernel
  refine ⟨fun _ => ⟨nofun, nofun⟩, fun w _ => ⟨fun _ => ⟨fun _ px hpx pi hpi _ _ _ _ => ?_, nofun⟩, fun u _ => trivial⟩⟩
  cases hrecord.symm.trans hpx
  obtain rfl := mem_singleton.mp (mem_of_mem_take hpi)
  exact hkeys

theorem keys_own_frames : ∃ w n, exec (next env config) (new [] start) frames = some w ∧ w.peers.node? peerID = some n ∧
    n.pubKey = peerPub ∧ Own env (Verified env) peerID n.pubKey n.mlkemPub := by
  have hrun : ((exec (next env config) (new [] start) frames).bind fun w => (w.peers.node? peerID).map (·.pubKey)) =
      some peerPub := by
    decide +kernel
  obtain ⟨w, hw, hn⟩ := bind_eq_some_iff.mp hrun
  obtain ⟨n, hn, hpub⟩ := map_eq_some_iff.mp hn
  exact ⟨w, n, hw, hn, hpub, keys_own (unforgeable_verified env) faithful_frames hw hn⟩

/-- A third party's record installs a key that the peer has never stated. --/
theorem key_installed : Unforgeable otherEnv (Verified otherEnv) ∧
    ∃ w n, exec (next otherEnv config) (new [] start) [.frame thirdAddr udp otherPacket 0] = some w ∧
      w.peers.node? peerID = some n ∧
      n.pubKey = otherPub ∧ ¬StatedPub otherEnv (Verified otherEnv) peerID n.pubKey := by
  refine ⟨unforgeable_verified otherEnv, ?_⟩
  have hrun : ((exec (next otherEnv config) (new [] start) [.frame thirdAddr udp otherPacket 0]).bind fun w =>
      (w.peers.node? peerID).map (·.pubKey)) = some otherPub := by decide +kernel
  obtain ⟨w, hw, hn⟩ := bind_eq_some_iff.mp hrun
  obtain ⟨n, hn, hpub⟩ := map_eq_some_iff.mp hn
  refine ⟨w, n, hw, hn, hpub, ?_⟩
  -- nobody but the third party has signed anything, and its name is another one
  rintro ⟨signKey, msg, kem, hid, ⟨sig, hverify⟩, -⟩
  obtain ⟨e, he, heq⟩ := any_eq_true.mp hverify
  obtain rfl := mem_singleton.mp he
  obtain rfl := (of_decide_eq_true heq).1
  have hother : deriveNodeID otherEnv.sigs thirdKey ≠ peerID := by decide +kernel
  exact hother hid

end Discovery
end SyncSwarm.Discovery
