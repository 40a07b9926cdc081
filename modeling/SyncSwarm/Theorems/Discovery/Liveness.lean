import SyncSwarm.Theorems.Discovery.Keys

/-! Who makes a peer active: the peer itself, by a packet that it has signed or by its reply to a latency check. -/

set_option linter.dupNamespace false

namespace SyncSwarm.Discovery
open Lib Protocol List Option GoMap

/-- The peer has answered the check: since it was sent, a reply with its number has come under the peer's signature. --/
def Probe.Answered (env : Env) (heard : List SignedPacket) (x : Probe) : Prop :=
  ∃ nonce since ip payload, x.sent = some (nonce, since) ∧ ip ∈ heard.drop since ∧ ip.verify env.sigs = true ∧
    ip.signerID env.sigs = x.nodeID ∧ ip.type = .latencyReply ∧ env.json.discovery.unmarshal ip.payload = some payload ∧
    payload.nonce = nonce

namespace Discovery
variable {env : Env} {cfg : Config} {w u : Discovery} {a : Action} {c c' : Core}

def Vouches (env : Env) (cfg : Config) (pkt : SignedPacket) (id : String) : Prop :=
  ∃ ip, Brings cfg pkt ip ∧ ip.verify env.sigs = true ∧ ip.signerID env.sigs = id

/-- The step handles a packet that the node has signed, or ends a check that it has answered. --/
inductive FirstHand (env : Env) (cfg : Config) (w : Discovery) : Action → String → Prop where
  | signed {addr : String} {srcIface : Interface} {pkt : SignedPacket} {nonce : UInt64} {id : String} :
    Vouches env cfg pkt id →
    FirstHand env cfg w (.frame addr srcIface pkt nonce) id
  | answered {k : Nat} {x : Probe} : w.probes[k]? = some x → x.Answered env w.heard →
    FirstHand env cfg w (.conclude k) x.nodeID

/-- An announce with the hop count zero comes in a packet of the node that it announces, and the end of the node ends
    no check by which a peer could become active. --/
def Straight (env : Env) (w : Discovery) : Action → Prop
  | .frame _ _ pkt _ => pkt.type = .announce → ∀ ap ∈ env.json.announce.unmarshal pkt.payload, ap.hopCount = 0 →
      pkt.signerID env.sigs = ap.destHash
  | .canceled k => ∀ x ∈ w.probes[k]?, x.promotes = false
  | _ => True

/-! ### Peers -/

section
variable {now : Int} {remoteAddr addr : String} {srcIface : Interface} {pkt : SignedPacket} {nonce : UInt64}

def Relays (env : Env) (pkt : SignedPacket) (id : String) : Prop :=
  pkt.type = .announce ∧ pkt.verify env.sigs = true ∧
    ∃ ap ∈ env.json.announce.unmarshal pkt.payload, ap.hopCount = 0 ∧ ap.destHash = id

theorem Handles.ops (h : Handles env cfg now remoteAddr srcIface pkt c c') : ∃ ops,
    c'.peers = c.peers.runAll env.sigs (cfg.peerConfig env) now ops ∧
      ∀ op ∈ ops, op.verified = true → Vouches env cfg pkt op.id ∨ Relays env pkt op.id := by
  have none : ∃ ops, c.peers = c.peers.runAll env.sigs (cfg.peerConfig env) now ops ∧
      ∀ op ∈ ops, op.verified = true → Vouches env cfg pkt op.id ∨ Relays env pkt op.id :=
    ⟨[], rfl, nofun⟩
  have one : ∀ op : PeerOp, (op.verified = true → Vouches env cfg pkt op.id ∨ Relays env pkt op.id) →
      ∃ ops, op.run env.sigs (cfg.peerConfig env) now c.peers = c.peers.runAll env.sigs (cfg.peerConfig env) now ops ∧
        ∀ op ∈ ops, op.verified = true → Vouches env cfg pkt op.id ∨ Relays env pkt op.id :=
    fun op hop => ⟨[op], rfl, fun o ho => mem_singleton.mp ho ▸ hop⟩
  have straight : ∀ type, pkt.type = type → type ≠ .routed → type ≠ .routedDiscovery → Brings cfg pkt pkt :=
    fun type htype h h' => .straight (htype ▸ h) (htype ▸ h')
  cases h with
  | dropped | heard | routed => exact none
  | gossiped =>
    refine ⟨_, rfl, fun op hop hverified => ?_⟩
    obtain ⟨pi, -, rfl⟩ := mem_map.mp hop
    cases hverified
  | asked hv htype _ hbound =>
    rw [Core.peers_op]
    exact one _ fun _ => .inl ⟨pkt, straight _ htype nofun nofun, hv, hbound.symm⟩
  | contacts =>
    refine ⟨_, rfl, fun op hop hverified => ?_⟩
    obtain ⟨d, -, rfl⟩ := mem_map.mp hop
    cases hverified
  | announced hv htype hap =>
    rw [Core.peers_path, Core.peers_op]
    exact one _ fun hzero => .inr ⟨htype, hv, _, hap, of_decide_eq_true hzero, rfl⟩
  | discovered hv htype _ hbound =>
    rw [Core.peers_op]
    refine one _ fun _ => .inl ⟨pkt, ?_, hv, hbound.symm⟩
    rcases htype with htype | htype
    · exact straight _ htype nofun nofun
    · exact straight _ htype nofun nofun
  | replied | routedReply => rwa [Core.peers_reply]
  | routedPeer hbrings _ hv _ _ _ hbound =>
    rw [Core.peers_op]
    exact one _ fun _ => .inl ⟨_, hbrings, hv, hbound.symm⟩

theorem Straight.vouches {id : String} (h : Straight env w (.frame addr srcIface pkt nonce))
    (hrelays : Relays env pkt id) :
    Vouches env cfg pkt id := by
  obtain ⟨htype, hv, ap, hap, hzero, rfl⟩ := hrelays
  exact ⟨pkt, .straight (htype ▸ nofun) (htype ▸ nofun), hv, h htype ap hap hzero⟩

/-! ### Checks -/

theorem Handles.checks (h : Handles env cfg now remoteAddr srcIface pkt c c') :
    c'.pending = c.pending ∧ ∃ new, c'.heard = c.heard ++ new ∧
    (c'.probes = c.probes ∨ ∃ ip ∈ new, ∃ payload, ip.verify env.sigs = true ∧ ip.type = .latencyReply ∧
      env.json.discovery.unmarshal ip.payload = some payload ∧
      c'.probes = (c.reply now payload.nonce (ip.signerID env.sigs)).probes) := by
  have hreply : ∀ (d : Core) nonce signer, (d.reply now nonce signer).pending = d.pending ∧
      (d.reply now nonce signer).heard = d.heard := by
    intro d nonce signer
    obtain ⟨_, heq⟩ := d.reply_eq now nonce signer
    rw [heq]
    exact ⟨rfl, rfl⟩
  have hsame : ∀ (d : Core) nonce signer, d.pending = c.pending → d.probes = c.probes →
      (d.reply now nonce signer).probes = (c.reply now nonce signer).probes := by
    intro d nonce signer hp hx
    simp only [Core.reply, hp, hx]
    split
    · exact hx
    · split
      · rfl
      · exact hx
  cases h with
  | dropped => exact ⟨rfl, [], (append_nil _).symm, .inl rfl⟩
  | replied hv htype hpayload =>
    obtain ⟨hpending, hheard⟩ := hreply (c.hear pkt) _ _
    exact ⟨hpending, _, hheard, .inr ⟨_, mem_singleton.mpr rfl, _, hv, htype, hpayload, hsame (c.hear pkt) _ _ rfl rfl⟩⟩
  | @routedReply ip payload _ _ hv _ htype hpayload =>
    obtain ⟨hpending, hheard⟩ := hreply
      ((c.hear ip).path env (ip.signerID env.sigs) (reversePath remoteAddr srcIface ip now) .reversed) payload.nonce
        (ip.signerID env.sigs)
    exact ⟨hpending, [ip], hheard, .inr ⟨ip, mem_singleton.mpr rfl, payload, hv, htype, hpayload, hsame _ _ _ rfl rfl⟩⟩
  | _ => exact ⟨rfl, _, rfl, .inl rfl⟩

end

variable {x : Probe} {k : Nat} {now : Int}

theorem Answered.mono {heard : List SignedPacket} (h : x.Answered env heard) (new : List SignedPacket) :
    x.Answered env (heard ++ new) := by
  obtain ⟨nonce, since, ip, payload, hsent, hip, hrest⟩ := h
  refine ⟨nonce, since, ip, payload, hsent, ?_, hrest⟩
  rw [drop_append]
  exact mem_append_left _ hip

structure ProbeOk (env : Env) (p : Peers) (heard : List SignedPacket) (x : Probe) : Prop where
  finds : ∀ ref promote, x.kind = .check ref promote → ∃ n, p.objects[ref]? = some n ∧ n.id = x.nodeID
  since : ∀ nonce since, x.sent = some (nonce, since) → since ≤ heard.length
  queued : x.phase = .queued → x.sent = none
  reply : x.reply.isSome = true → x.Answered env heard
  measured : ∀ latency, x.phase = .measured latency → latency ≤ maxLatency → x.promotes = true → x.Answered env heard

/-- The invariant: a measured probe was answered. --/
structure Checked (env : Env) (c : Core) : Prop where
  named : c.peers.Named
  probes : ∀ x ∈ c.probes, ProbeOk env c.peers c.heard x
  pending : ∀ nonce p, c.pending.get? nonce = some p → ∃ x since, c.probes[p.probe]? = some x ∧ x.nodeID = p.nodeID ∧
    x.sent = some (nonce, since)

theorem ProbeOk.mono {p q : Peers} {heard : List SignedPacket} (h : ProbeOk env p heard x) (hkeeps : p.Keeps q)
    (new : List SignedPacket) : ProbeOk env q (heard ++ new) x where
  finds ref promote hkind := by
    obtain ⟨n, hn, hid⟩ := h.finds ref promote hkind
    obtain ⟨m, hm, hmid⟩ := hkeeps ref n hn
    exact ⟨m, hm, hmid.trans hid⟩
  since nonce since hsent := by
    rw [length_append]
    exact Nat.le_add_right_of_le (h.since nonce since hsent)
  queued := h.queued
  reply hreply := Answered.mono (h.reply hreply) new
  measured latency hp hle hpromotes := Answered.mono (h.measured latency hp hle hpromotes) new

theorem checked_new (capabilities : List String) (now : Int) : Checked env (new capabilities now).core where
  named := Peers.named_new
  probes x hx := absurd hx not_mem_nil
  pending nonce p hp := by
    rw [core, new, get?_empty] at hp
    cases hp

theorem Checked.setProbe (h : Checked env c) {x y : Probe} (hx : c.probes[k]? = some x) (hid : y.nodeID = x.nodeID)
    (hsent : y.sent = x.sent) (hy : ProbeOk env c.peers c.heard y) {pending : GoMap UInt64 PendingLatency}
    (hpending : ∀ nonce p, pending.get? nonce = some p → c.pending.get? nonce = some p) :
    Checked env { c with probes := c.probes.set k y, pending } where
  named := h.named
  probes z hz := by
    rcases mem_or_eq_of_mem_set hz with hz | rfl
    · exact h.probes z hz
    · exact hy
  pending nonce p hp := by
    obtain ⟨z, since, hz, hzid, hzsent⟩ := h.pending nonce p (hpending nonce p hp)
    by_cases hk : k = p.probe
    · subst hk
      cases hx.symm.trans hz
      refine ⟨y, since, ?_, hid.trans hzid, hsent.trans hzsent⟩
      show (c.probes.set p.probe y)[p.probe]? = some y
      rw [getElem?_set', if_pos rfl, hx]
      rfl
    · refine ⟨z, since, ?_, hzid, hzsent⟩
      show (c.probes.set k y)[p.probe]? = some z
      rw [getElem?_set', if_neg hk, hz]

theorem get?_of_delete {m : GoMap UInt64 PendingLatency} {k nonce : UInt64} {p : PendingLatency}
    (h : (m.delete k).get? nonce = some p) :
    m.get? nonce = some p := by
  by_cases hk : nonce = k
  · rw [hk, get?_delete_self] at h
    cases h
  · rwa [get?_delete_ne _ hk] at h

theorem Checked.measured (h : Checked env c) (hx : c.probes[k]? = some x) {latency : Int} (nonce : UInt64)
    (hlatency : latency ≤ maxLatency → x.promotes = true → x.Answered env c.heard) :
    Checked env { c with
      probes := c.probes.set k { x with phase := .measured latency }, pending := c.pending.delete nonce } := by
  have hok := h.probes x (mem_of_getElem? hx)
  refine h.setProbe (y := { x with phase := .measured latency }) hx rfl rfl
    ⟨hok.finds, hok.since, nofun, hok.reply, fun l hp hle hpromotes => ?_⟩ fun _ _ => get?_of_delete
  · cases hp
    exact hlatency hle hpromotes

theorem Checked.send (h : Checked env c) {nonce : UInt64} {start : Int} (hx : c.probes[k]? = some x)
    (hp : x.phase = .queued) :
    Checked env
      { c with
        probes :=
  c.probes.set k { x with phase := .waiting nonce start, sent := some (nonce, c.heard.length), reply := none }
        pending := c.pending.set nonce ⟨x.nodeID, k⟩ } where
  named := h.named
  probes y hy := by
    rcases mem_or_eq_of_mem_set hy with hy | rfl
    · exact h.probes y hy
    · refine ⟨(h.probes x (mem_of_getElem? hx)).finds, fun n since hsent => ?_, fun hp => ?_, fun hreply =>
        ?_, fun l hp => ?_⟩
      · cases hsent
        exact Nat.le_refl _
      · cases hp
      · cases hreply
      · cases hp
  pending n p hget := by
    rw [get?_set] at hget
    split at hget
    next hn =>
      subst hn
      cases hget
      refine ⟨{ x with phase := .waiting n start, sent := some (n, c.heard.length), reply := none },
        c.heard.length, ?_, rfl, rfl⟩
      show (c.probes.set k _)[k]? = _
      rw [getElem?_set', if_pos rfl, hx]
      rfl
    · obtain ⟨y, since, hy, hid, hsent⟩ := h.pending n p hget
      refine ⟨y, since, ?_, hid, hsent⟩
      -- A check that is queued has sent nothing, so nobody waits for it.
      have hk : k ≠ p.probe := by
        rintro rfl
        cases hx.symm.trans hy
        rw [(h.probes x (mem_of_getElem? hx)).queued hp] at hsent
        cases hsent
      show (c.probes.set k _)[p.probe]? = _
      rw [getElem?_set', if_neg hk, hy]

theorem Checked.conclude (h : Checked env w.core) (hx : w.probes[k]? = some x) (latency : Int) :
    Checked env { w.core with
      probes := w.probes.set k { x with phase := .done }, peers := w.concludeProbe x latency } := by
  have hok := h.probes x (mem_of_getElem? hx)
  have hdone : Checked env { w.core with probes := w.probes.set k { x with phase := .done }, pending := w.pending } :=
    h.setProbe (y := { x with phase := .done }) hx rfl rfl ⟨hok.finds, hok.since, nofun, hok.reply, nofun⟩
      fun _ _ hp => hp
  rcases concludeProbe_cases w x latency with hsame | ⟨ref, n, lat, active, lastSeen, -, hn, hset, -⟩
  · rw [hsame]
    exact hdone
  · rw [hset]
    refine ⟨h.named.setObject hn rfl, fun y hy => ?_, hdone.pending⟩
    have hy := (hdone.probes y hy).mono
      (Peers.keeps_setObject (m := { n with latency := lat, active, lastSeen }) hn rfl) []
    rwa [append_nil] at hy

theorem Checked.reply {new : List SignedPacket} {ip : SignedPacket} {payload : DiscoveryPayload} (h : Checked env c)
    (hip : ip ∈ new) (hv : ip.verify env.sigs = true) (htype : ip.type = .latencyReply)
    (hpayload : env.json.discovery.unmarshal ip.payload = some payload)
    (hx : x ∈ (c.reply now payload.nonce (ip.signerID env.sigs)).probes) : ∃ y ∈ c.probes, ∃ reply,
      x = { y with reply } ∧ (reply.isSome = true → y.reply.isSome = true ∨ y.Answered env (c.heard ++ new)) := by
  have hsame : x ∈ c.probes → ∃ y ∈ c.probes, ∃ reply,
      x = { y with reply } ∧
        (reply.isSome = true → y.reply.isSome = true ∨ y.Answered env (c.heard ++ new)) := fun hmem =>
    ⟨x, hmem, x.reply, rfl, .inl⟩
  rw [Core.reply] at hx
  split at hx
  · exact hsame hx
  next p hp =>
  split at hx
  swap
  · exact hsame hx
  next hsigner =>
  obtain ⟨j, hj⟩ := mem_iff_getElem?.mp hx
  rw [getElem?_modify] at hj
  obtain ⟨y, hy, rfl⟩ := map_eq_some_iff.mp hj
  have hmem := mem_of_getElem? hy
  by_cases hk : p.probe = j
  swap
  · exact ⟨y, hmem, y.reply, by rw [if_neg hk], .inl⟩
  subst hk
  refine ⟨y, hmem, y.reply.or (some now), by rw [if_pos rfl], fun _ => .inr ?_⟩
  obtain ⟨z, since, hz, hid, hsent⟩ := h.pending payload.nonce p hp
  cases hy.symm.trans hz
  refine ⟨payload.nonce, since, ip, payload, hsent, ?_, hv, hsigner.symm.trans hid.symm, htype, hpayload, rfl⟩
  rw [drop_append_of_le_length ((h.probes y hmem).since _ _ hsent)]
  exact mem_append_right _ hip

theorem Checked.reply_getElem? {nonce : UInt64} {signer : String} (hx : c.probes[k]? = some x) :
    ∃ reply, (c.reply now nonce signer).probes[k]? = some { x with reply } := by
  rw [Core.reply]
  split
  · exact ⟨x.reply, hx⟩
  split
  next p _ _ =>
    show ∃ reply, (c.probes.modify p.probe _)[k]? = _
    rw [getElem?_modify, hx]
    by_cases hk : p.probe = k
    · exact ⟨x.reply.or (some now), by simp [hk]⟩
    · exact ⟨x.reply, by simp [hk]⟩
  · exact ⟨x.reply, hx⟩

theorem Handles.checked {remoteAddr : String} {srcIface : Interface} {pkt : SignedPacket} (hc : Checked env c)
    (h : Handles env cfg now remoteAddr srcIface pkt c c') : Checked env c' := by
  obtain ⟨ops, hpeers, -⟩ := h.ops
  obtain ⟨hpending, new, hheard, hprobes⟩ := h.checks
  have hnamed : c'.peers.Named := hpeers ▸ hc.named.runAll
  have hkeeps : c.peers.Keeps c'.peers := hpeers ▸ Peers.keeps_runAll _ _ _ ops c.peers
  rcases hprobes with hsame | ⟨ip, hip, payload, hv, htype, hpayload, hreply⟩
  · refine ⟨hnamed, fun x hx => ?_, fun nonce p hp => ?_⟩
    · rw [hsame] at hx
      rw [hheard]
      exact (hc.probes x hx).mono hkeeps new
    · rw [hpending] at hp
      rw [hsame]
      exact hc.pending nonce p hp
  · refine ⟨hnamed, fun x hx => ?_, fun nonce p hp => ?_⟩
    · rw [hreply] at hx
      obtain ⟨y, hy, reply, rfl, hreply⟩ := hc.reply hip hv htype hpayload hx
      have hok := (hc.probes y hy).mono hkeeps new
      rw [hheard]
      refine ⟨hok.finds, hok.since, hok.queued, fun hr => ?_, hok.measured⟩
      rcases hreply hr with hold | hnew
      · exact hok.reply hold
      · exact hnew
    · rw [hpending] at hp
      obtain ⟨x, since, hx, hid, hsent⟩ := hc.pending nonce p hp
      obtain ⟨reply, hx'⟩ := Checked.reply_getElem? hx
      rw [hreply]
      exact ⟨_, since, hx', hid, hsent⟩

theorem Moves.checked (h : Moves env cfg w a c) (ha : Straight env w a) (hw : Checked env w.core) : Checked env c := by
  cases h with
  | quiet => exact hw
  | handled _ hhandles => exact hhandles.checked hw
  | @queued _ xs hxs =>
    refine ⟨hw.named, fun x hx => ?_, fun nonce p hp => ?_⟩
    · rcases mem_append.mp hx with hx | hx
      · exact hw.probes x hx
      · obtain ⟨⟨hp, hsent, hreply⟩, hfinds⟩ := hxs x hx
        refine ⟨hfinds, fun n since h => ?_, fun _ => hsent, fun h => ?_, fun l h => ?_⟩
        · rw [hsent] at h
          cases h
        · rw [hreply] at h
          cases h
        · rw [hp] at h
          cases h
    · obtain ⟨x, since, hx, hrest⟩ := hw.pending nonce p hp
      exact ⟨x, since, (getElem?_append_left (lt_of_getElem? hx)).trans hx, hrest⟩
  | sent hx hp => exact hw.send hx hp
  | @unsent k x ok hx hp =>
    have hok := hw.probes x (mem_of_getElem? hx)
    refine hw.setProbe (y := { x with phase := .measured (maxLatency + 1) }) hx rfl rfl
      ⟨hok.finds, hok.since, nofun, hok.reply, fun l hl hle => ?_⟩ fun _ _ hp => hp
    cases hl
    exact absurd hle (by decide)
  | @answered k x nonce latency arrival hx hreply =>
    exact hw.measured hx nonce fun _ _ => (hw.probes x (mem_of_getElem? hx)).reply (by rw [hreply]; rfl)
  | @timedOut k x nonce hx => exact hw.measured hx nonce fun hle => absurd hle (by decide)
  | @canceled k x nonce hx =>
    exact hw.measured hx nonce fun _ hpromotes => absurd ((ha x hx).symm.trans hpromotes) Bool.false_ne_true
  | @concluded k x latency hx _ => exact hw.conclude hx latency

/-! ### First-hand liveness -/

theorem Probes.id_eq {ref : Nat} {n : Node} (hw : Checked env w.core) (hx : x ∈ w.probes) (h : w.Probes x ref)
    (hn : w.peers.objects[ref]? = some n) : n.id = x.nodeID := by
  rw [Probes] at h
  split at h
  next r promote hkind =>
    obtain ⟨m, hm, hid⟩ := (hw.probes x hx).finds r promote hkind
    rw [h] at hn
    exact mem_unique hn hm ▸ hid
  · exact hw.named.id_eq h hn

/-- In every run whose steps are straight, each step makes a peer active, and stores an address as that of a verified
    contact, only at first hand. --/
theorem liveness_first_hand {capabilities : List String} {now : Int} {as : List Action}
    (hstraight : Along (next env cfg) (Straight env) (new capabilities now) (as ++ [a]))
    (hrun : exec (next env cfg) (new capabilities now) as = some w) (hstep : next env cfg w a = some u) :
    (∀ id, ¬w.peers.Active id → u.peers.Active id → FirstHand env cfg w a id) ∧
    ∃ contacts, u.peers.contacts = contacts ++ w.peers.contacts ∧ ∀ e ∈ contacts, FirstHand env cfg w a e.1 := by
  obtain ⟨hbefore, ha, -⟩ := hstraight.of_append hrun
  have hw : Checked env w.core := by
    refine exec_keeps_along (P := fun w => Checked env w.core) ?_ (checked_new capabilities now) hbefore hrun
    intro w a u ha hw hstep
    exact (step_cases hstep).checked ha hw
  have hmoves := step_cases hstep
  show (∀ id, ¬w.peers.Active id → u.core.peers.Active id → _) ∧ ∃ contacts, u.core.peers.contacts = _ ∧ _
  generalize u.core = c at hmoves
  cases hmoves with
  | @handled addr remoteAddr srcIface pkt nonce c _ hhandles =>
    obtain ⟨ops, hpeers, hops⟩ := hhandles.ops
    have hfirst : ∀ op ∈ ops, op.verified = true → FirstHand env cfg w (.frame addr srcIface pkt nonce) op.id := by
      intro op hop hverified
      rcases hops op hop hverified with hvouches | hrelays
      · exact .signed hvouches
      · exact .signed (ha.vouches hrelays)
    rw [hpeers]
    constructor
    · intro id hnot hactive
      rcases Peers.active_runAll hw.named hactive with hold | ⟨op, hop, rfl, hverified⟩
      · exact absurd hold hnot
      · exact hfirst op hop hverified
    · obtain ⟨contacts, heq, hcontacts⟩ := Peers.contacts_runAll ops w.core.peers
      refine ⟨contacts, heq, fun e he => ?_⟩
      obtain ⟨op, hop, hid, hverified⟩ := hcontacts e he
      exact hid ▸ hfirst op hop hverified
  | @concluded k x latency hx hphase =>
    have hmem := mem_of_getElem? hx
    rcases concludeProbe_cases w x latency with hsame | ⟨ref, n, lat, active, lastSeen, hprobes, hn, hset, hpromoted⟩
    · exact ⟨fun id hnot hactive => absurd (hsame ▸ hactive) hnot, [], congrArg Peers.contacts hsame, nofun⟩
    · constructor
      · intro id hnot hactive
        rcases Peers.active_setObject hn (hset ▸ hactive) with hold | ⟨hnode, hactive⟩
        · exact absurd hold hnot
        · rcases hpromoted hactive with hold | ⟨hle, hpromotes⟩
          · exact absurd ⟨n, hnode, hold⟩ hnot
          · rw [← hw.named.node?_id hnode, hprobes.id_eq hw hmem hn]
            exact .answered hx ((hw.probes x hmem).measured latency hphase hle hpromotes)
      · exact ⟨[], (congrArg Peers.contacts hset).trans rfl, nofun⟩
  | _ => exact ⟨fun id hnot hactive => absurd hactive hnot, [], rfl, nofun⟩

end Discovery

/-! ### Three nodes -/

namespace Trio

def announceSignature : Bytes :=
  beBytes 32 0xab04f57741755a6d4851a7bef22534ef195c8152ac626aa2b43069af25db08ee ++
  beBytes 32 0xe99a848c2e8b8b538271b1e681263f4cccf394604182adb8e1db6d5996cc710d

def peerAnnounce : AnnouncePayload :=
  { destHash := peerID, signKey := peerKey, pubKey := peerPub, port := 4000, timestamp := start, nonce := 7,
    signature := announceSignature }

def announceText (hops : Bytes) : Bytes :=
  beBytes 48 0x7b224465737448617368223a226236326538363766613266333361666536326435643662313634326531363231222c22 ++
  beBytes 48 0x5369676e4b6579223a2237556b6f78696a527773627136514d346b466d5659536c5a4a7a7063592f6b324e734647464b ++
  beBytes 48 0x79484e39453d222c225075624b6579223a224d645372617337736c6845336b5841336b32356763572b73567a722b6c4e ++
  beBytes 48 0x6e61684b674342456a667752493d222c224d4c4b454d507562223a6e756c6c2c22506f7274223a343030302c22436170 ++
  beBytes 48 0x6162696c6974696573223a6e756c6c2c2252656c6179494473223a6e756c6c2c2241707044617461223a6e756c6c2c22 ++
  beBytes 48 0x54696d657374616d70223a313736373232353630303030303030303030302c224e6f6e6365223a372c22486f70436f75 ++
  beBytes 4 0x6e74223a ++
  hops ++ beBytes 48
    0x2c225369676e6174757265223a227177543164304631576d31495561652b3869553037786c6367564b73596d71697444 ++
  beBytes 48 0x427072795862434f37706d6f534d4c6f754c55344a78736561424a6a394d7a504f555945474372626a683232315a6c73 ++
  beBytes 8 0x787844513d3d227d

def announceJson : Bytes := announceText [48]

/-- The announce in a packet of the third party, which has left the hop count at zero. --/
def repeatedPacket : SignedPacket where
  id := .copy 32 (beBytes 32 0x7d942baf3c730f5a3fdefbd2b70402e6de87a800891c0445205b9bd0d416efcc)
  type := .announce
  timestamp := start
  sourceNode := thirdID
  destGroup := "ANY"
  payloadSize := 397
  payload := announceJson
  signerKey := thirdKey
  signature :=
    beBytes 32 0x3976d17ab8016b2aeed41ee4d4c404326db3d486bdceaf84712d7e9aed91a2f2 ++
    beBytes 32 0x6ab1da22db4fbfae5de4f5c2a91e9bf633418537d580b51fcc021d7886843206

def probeText (id : Bytes) : Bytes :=
  beBytes 11 0x7b224e6f64654944223a22 ++ id ++
  beBytes 48 0x222c2256657273696f6e223a22312e302e30222c224361706162696c6974696573223a6e756c6c2c22506f7274223a30 ++
  beBytes 48 0x2c224e6f6e6365223a312c225075624b6579223a6e756c6c2c225369676e4b6579223a6e756c6c2c224f627365727665 ++
  beBytes 42 0x6441646472223a22222c2252656c6179494473223a6e756c6c2c224d4c4b454d507562223a6e756c6c7d

def checkJson : Bytes := probeText (beBytes 32 0x3334373530663938626435396663666339343664613435616161626539333362)

def checkPacket : SignedPacket where
  id := .copy 32 (beBytes 32 0x5307f535af177666f3acdcdb4d23939589f39acf8858bc77bad1bdb464d5d9b5)
  type := .latencyCheck
  timestamp := start
  sourceNode := selfID
  destGroup := "ANY"
  destNode := peerID
  payloadSize := 181
  payload := checkJson
  signerKey := config.signPub
  signature :=
    beBytes 32 0x7bae1151c2a5ab6e6d77aeca67ec0a40e547c112d37ed6a54b9ef5d74680b7d5 ++
    beBytes 32 0x6190f1090e7d82ef7da958807fd58df276d54d6fc7e8608e43b99fd0f19bb709

def repeatEnv : Env :=
  envOf
    [(peerKey, peerAnnounce.signedBytes, announceSignature),
      (thirdKey, repeatedPacket.canonicalBytes, repeatedPacket.signature)]
    [] { noJson with announce := codecOf [(peerAnnounce, announceJson)] }

def checkEnv : Env :=
  envOf
    [(thirdKey, recordPacket.canonicalBytes, recordPacket.signature),
      (config.signPub, checkPacket.canonicalBytes, checkPacket.signature)]
    [(checkJson ++ startText, checkPacket.id.val)]
    { noJson with
      peerExchange := codecOf [(⟨[record peerPub]⟩, recordJson)]
      discovery := codecOf [({ nodeID := selfID, version := "1.0.0", nonce := 1 }, checkJson)] }

def stopping : List Discovery.Action :=
  [.frame thirdAddr udp recordPacket 0, .checkLatencies, .measure 0 true, .stop, .canceled 0]

end Trio

namespace Discovery
open Trio

theorem not_active {p : Peers} {id : String} (h : (p.node? id).map (·.active) = some false) : ¬p.Active id := by
  intro hactive
  rw [map_eq_some_iff.mpr hactive] at h
  cases h

theorem liveness_first_hand_packet :
    ∃ w u, exec (next Trio.env config) (new [] start) [.frame thirdAddr udp recordPacket 0] = some w ∧
    next Trio.env config w (.frame peerAddr udp peerPacket 0) = some u ∧ ¬w.peers.Active peerID ∧
      u.peers.Active peerID ∧
    FirstHand Trio.env config w (.frame peerAddr udp peerPacket 0) peerID := by
  have hrun : ((exec (next Trio.env config) (new [] start) [.frame thirdAddr udp recordPacket 0]).bind fun w =>
      (next Trio.env config w (.frame peerAddr udp peerPacket 0)).map fun u =>
        ((w.peers.node? peerID).map (·.active), (u.peers.node? peerID).map (·.active))) =
          some (some false, some true) := by
    decide +kernel
  obtain ⟨w, hw, hnext⟩ := bind_eq_some_iff.mp hrun
  obtain ⟨u, hu, hflags⟩ := map_eq_some_iff.mp hnext
  obtain ⟨hbefore, hafter⟩ := Prod.mk.inj hflags
  have hnot : ¬w.peers.Active peerID := not_active hbefore
  have hactive : u.peers.Active peerID := map_eq_some_iff.mp hafter
  have hstraight : Along (next Trio.env config) (Straight Trio.env) (new [] start)
      [.frame thirdAddr udp recordPacket 0, .frame peerAddr udp peerPacket 0] :=
    ⟨nofun, fun _ _ => ⟨nofun, fun _ _ => trivial⟩⟩
  exact ⟨w, u, hw, hu, hnot, hactive, (liveness_first_hand hstraight hw hu).1 peerID hnot hactive⟩

/-- A repeated announce, and a check that ends with the node, each make a peer active that has sent nothing. --/
theorem active_unheard :
    (∃ u, next repeatEnv config (new [] start) (.frame thirdAddr udp repeatedPacket 0) = some u ∧
      u.peers.Active peerID ∧
      u.peers.contacts = [(peerID, thirdAddr)] ∧
      ¬FirstHand repeatEnv config (new [] start) (.frame thirdAddr udp repeatedPacket 0) peerID) ∧
    ∃ w u, exec (next checkEnv config) (new [] start) stopping = some w ∧
      next checkEnv config w (.conclude 0) = some u ∧
      ¬w.peers.Active peerID ∧ u.peers.Active peerID ∧ ¬FirstHand checkEnv config w (.conclude 0) peerID := by
  constructor
  · have hrun : ((next repeatEnv config (new [] start) (.frame thirdAddr udp repeatedPacket 0)).map fun u =>
        (u.peers.contacts, (u.peers.node? peerID).map (·.active))) =
          some ([(peerID, thirdAddr)], some true) := by decide +kernel
    obtain ⟨u, hu, hflags⟩ := map_eq_some_iff.mp hrun
    obtain ⟨hcontacts, hactive⟩ := Prod.mk.inj hflags
    refine ⟨u, hu, map_eq_some_iff.mp hactive, hcontacts, ?_⟩
    -- the packet is the third party's
    rintro (⟨ip, hbrings, -, hsigner⟩ | _)
    have hother : repeatedPacket.signerID repeatEnv.sigs ≠ peerID := by decide +kernel
    cases hbrings with
    | straight => exact hother hsigner
    | carried htype => cases htype
  · have hrun :
      ((exec (next checkEnv config) (new [] start) stopping).bind fun w =>
      (next checkEnv config w (.conclude 0)).map fun u =>
        (w.heard.length, w.probes.map (·.sent), (w.peers.node? peerID).map (·.active),
          (u.peers.node? peerID).map (·.active))) =
          some (1, [some (1, 1)], some false, some true) := by decide +kernel
    obtain ⟨w, hw, hnext⟩ := bind_eq_some_iff.mp hrun
    obtain ⟨u, hu, hflags⟩ := map_eq_some_iff.mp hnext
    simp only [Prod.mk.injEq] at hflags
    obtain ⟨hheard, hsent, hbefore, hafter⟩ := hflags
    refine ⟨w, u, hw, hu, not_active hbefore, map_eq_some_iff.mp hafter, fun hfirst => ?_⟩
    -- nothing was heard since the check was sent
    generalize hid : peerID = id at hfirst
    cases hfirst with
    | @answered k x hx hanswered =>
      obtain ⟨nonce, since, ip, payload, hprobe, hmem, -⟩ := hanswered
      have hsince := congrArg (·[0]?) hsent
      simp only [getElem?_map, hx, map_some, hprobe, getElem?_cons_zero, Option.some.injEq, Prod.mk.injEq] at hsince
      rw [hsince.2, drop_eq_nil_of_le (Nat.le_of_eq hheard)] at hmem
      cases hmem

end Discovery
end SyncSwarm.Discovery
