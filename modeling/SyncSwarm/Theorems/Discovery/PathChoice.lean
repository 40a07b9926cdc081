import SyncSwarm.Theorems.Discovery.Floods
import SyncSwarm.Theorems.Network.LoopFree

/-! Which of several copies of an announce a path is taken from, what may replace it, and what is told about it. -/

set_option linter.dupNamespace false

namespace SyncSwarm.Discovery
open Lib Protocol List Option

namespace Discovery
variable {env : Env} {cfg : Config} {w u : Discovery} {a : Action} {via : String}
  {ann ap : AnnouncePayload} {e : PathEntry}

/-! ### Copies of one announce -/

/-- The frame brings a valid copy `ap` of the announce `ann` from the address `via`. --/
structure CopyOf (env : Env) (cfg : Config) (ann : AnnouncePayload) (a : Action) (via : String) (ap : AnnouncePayload) :
    Prop where
  frame : ∃ addr srcIface pkt nonce, a = .frame addr srcIface pkt nonce ∧ env.net.resolve addr = some via ∧
    pkt.type = .announce ∧ pkt.verify env.sigs = true ∧ env.json.announce.unmarshal pkt.payload = some ap
  dest : ap.destHash = ann.destHash
  nonce : ap.nonce = ann.nonce
  timestamp : ap.timestamp = ann.timestamp
  other : ap.destHash ≠ cfg.selfID
  bound : ap.verifyBound env.sigs = true

theorem CopyOf.unique {via' : String} {ap' : AnnouncePayload} (h : CopyOf env cfg ann a via ap)
    (h' : CopyOf env cfg ann a via' ap') :
    ap = ap' := by
  obtain ⟨addr, srcIface, pkt, nonce, rfl, -, -, -, hap⟩ := h.frame
  obtain ⟨_, _, _, _, heq, -, -, -, hap'⟩ := h'.frame
  cases heq
  exact mem_unique hap hap'

theorem CopyOf.key (h : CopyOf env cfg ann a via ap) : announceKey ap = announceKey ann := by
  rw [announceKey, announceKey, h.dest, h.nonce]

theorem CopyOf.floodKey (h : CopyOf env cfg ann a via ap) : floodKeyOf env cfg a = some (announceKey ann) := by
  obtain ⟨addr, srcIface, pkt, nonce, rfl, hresolve, htype, hverify, hap⟩ := h.frame
  have htests : ¬(ap.destHash = cfg.selfID ∨ ap.verifyBound env.sigs = false) :=
    fun htests => htests.elim h.other (ne_false_of_eq_true h.bound)
  rw [← h.key, floodKeyOf, hresolve, isSome_some, if_pos rfl, signedKey, if_neg (ne_false_of_eq_true hverify),
    Discovery.floodKey, htype]
  simp only [hap, bind_some, if_neg htests, announceKey]

theorem CopyOf.stored (h : CopyOf env cfg ann a via ap) (hnew : (w.seenAnn.observe w.now (announceKey ann)).1 = false)
    (hfresh : ∀ e, w.paths.lookup ann.destHash = some e → e.originTS < ann.timestamp)
    (hnext : next env cfg w a = some u)
    (hkept : u.paths.evicted.count ann.destHash = w.paths.evicted.count ann.destHash) :
    u.paths.lookup ann.destHash = some (announcedPath cfg ap via w.now) := by
  obtain ⟨addr, srcIface, pkt, nonce, rfl, hresolve, htype, hverify, hap⟩ := h.frame
  obtain rfl : (w.receive env cfg addr srcIface pkt nonce).1 = u := Option.some.inj hnext
  have haccepts : w.paths.Accepts ap.destHash (announcedPath cfg ap via w.now) := fun cur hcur =>
    .inl (show cur.originTS < ap.timestamp from h.timestamp ▸ hfresh cur (h.dest ▸ hcur))
  obtain ⟨v, hv, hreceive⟩ := @receive_announce env cfg w addr via srcIface pkt nonce hresolve htype hverify
  rw [← h.key, ← hv.seenAnn, ← hv.now] at hnew
  have htests : ¬(ap.destHash = cfg.selfID ∨ ap.verifyBound env.sigs = false) :=
    fun htests => htests.elim h.other (ne_false_of_eq_true h.bound)
  obtain ⟨v', -, hpaths, -, hnow, haccept⟩ :=
    @handleAnnounce_new env cfg v via srcIface pkt ap hap htests (ne_true_of_eq_false hnew)
  have hstore : (w.receive env cfg addr srcIface pkt nonce).1.paths =
      w.paths.store env.pathIter ap.destHash (announcedPath cfg ap via w.now) .announced := by
    rw [hreceive, haccept, paths_acceptAnnounce, hpaths, hnow, hv.paths, hv.now]
    rcases PathTable.update_cases env.pathIter w.paths ap.destHash (announcedPath cfg ap via w.now) .announced with
      ⟨-, heq⟩ | ⟨hnot, -⟩
    · rw [heq]
    · exact absurd haccepts hnot
  rw [hstore] at hkept ⊢
  rw [PathTable.lookup_store_of_kept hkept, if_pos h.dest.symm]

/-- Within the window a further copy of an announce that has been seen changes no path. --/
theorem paths_again {t : Int} (hrecalls : w.seenAnn.Recalls w.now (announceKey ann) t)
    (hwindow : w.now - t < announceDedupTTL) (ha : (∃ d, a = .tick d) ∨ ∃ r c, CopyOf env cfg ann a r c)
    (hnext : next env cfg w a = some u) : u.paths = w.paths := by
  rcases ha with ⟨d, rfl⟩ | ⟨r, c, hcopy⟩
  · cases hnext
    rfl
  obtain ⟨addr, srcIface, pkt, nonce, rfl, hresolve, htype, hverify, hc⟩ := hcopy.frame
  obtain rfl : (w.receive env cfg addr srcIface pkt nonce).1 = u := Option.some.inj hnext
  obtain ⟨v, hv, hreceive⟩ := @receive_announce env cfg w addr r srcIface pkt nonce hresolve htype hverify
  have hseen : (v.seenAnn.observe v.now (announceKey c)).1 = true := by
    rw [hv.seenAnn, hv.now, hcopy.key]
    by_contra hnew
    exact absurd (hrecalls.over (eq_false_of_ne_true hnew)) (Int.not_le.mpr hwindow)
  rw [hreceive, ← hv.paths]
  exact congrArg Core.paths (handleAnnounce_seen hc hseen).2

theorem paths_again_run {t : Int} {rest : List Action} (hrecalls : w.seenAnn.Recalls w.now (announceKey ann) t)
    (hrest : ∀ a ∈ rest, (∃ d, a = .tick d) ∨ ∃ r c, CopyOf env cfg ann a r c)
    (hrun : exec (next env cfg) w rest = some u) (hwindow : u.now - t < announceDedupTTL) : u.paths = w.paths := by
  induction rest generalizing w with
  | nil =>
    cases hrun
    rfl
  | cons a rest ih =>
    obtain ⟨v, hv, hrun⟩ := exec_cons.mp hrun
    have hnow := now_step hv
    have hlater : v.now ≤ u.now :=
      exec_keeps (P := fun u => v.now ≤ u.now) (fun _ _ _ h hs => h.trans (now_step hs)) le_rfl hrun
    have hrecalls' : v.seenAnn.Recalls v.now (announceKey ann) t := by
      rw [(seen_step hv).1]
      exact (hrecalls.after (floodKeyOf env cfg a)).later hnow
    rw [ih hrecalls' (fun b hb => hrest b (mem_cons_of_mem a hb)) hrun]
    exact paths_again hrecalls (by omega) (hrest a mem_cons_self) hv

open Trio

theorem peer_copy : CopyOf netEnv config peerAnnounce (.frame peerAddr udp announcePacket 0) peerAddr peerAnnounce :=
  ⟨⟨_, _, _, _, rfl, rfl, rfl, by decide +kernel, by decide +kernel⟩, rfl, rfl, rfl, by decide, by decide +kernel⟩

theorem third_copy : CopyOf netEnv config peerAnnounce (.frame thirdAddr udp forwardedPacket 0) thirdAddr forwarded :=
  ⟨⟨_, _, _, _, rfl, rfl, rfl, by decide +kernel, by decide +kernel⟩, rfl, rfl, rfl, by decide, by decide +kernel⟩

/-- Better, or the same except for when it was last seen. --/
def Improves (e' e : PathEntry) : Prop := e'.Better e ∨ e' = { e with lastSeen := e'.lastSeen }

theorem Improves.trans {a b c : PathEntry} (hab : Improves a b) (hbc : Improves b c) : Improves a c := by
  rcases hab with hab | hab
  · rcases hbc with hbc | hbc
    · exact .inl (hab.trans hbc)
    · rw [hbc] at hab
      exact .inl hab
  · rw [hab]
    rcases hbc with hbc | hbc
    · exact .inl hbc
    · rw [hbc]
      exact .inr rfl

theorem improves_update {pt : PathTable} {iter : GoMap.Iteration String PathEntry} {D dest : String} {new : PathEntry}
    {writer : Writer} (he : pt.lookup D = some e)
    (hkept : (pt.update iter dest new writer).1.evicted.count D = pt.evicted.count D) :
    ∃ e', (pt.update iter dest new writer).1.lookup D = some e' ∧ Improves e' e := by
  rcases PathTable.lookup_update_of_kept hkept with ⟨rfl, haccepts, -, hnew⟩ | hsame | ⟨old, lastSeen, hold, hsame⟩
  · exact ⟨new, hnew, .inl (haccepts e he)⟩
  · exact ⟨e, hsame.trans he, .inr rfl⟩
  · cases he.symm.trans hold
    exact ⟨_, hsame, .inr rfl⟩

/-- As long as its entry is not evicted, the path to a destination is replaced only by a newer one, or by one that is
    as new over fewer hops; so one that is as new over as many hops has the same next hop and interface. --/
theorem paths_improve {D : String} {as : List Action} (he : w.paths.lookup D = some e)
    (hrun : exec (next env cfg) w as = some u) (hkept : u.paths.evicted.count D = w.paths.evicted.count D) :
    ∃ e', u.paths.lookup D = some e' ∧ Improves e' e ∧
      (e'.originTS = e.originTS → e'.hops = e.hops → e'.nextHop = e.nextHop ∧ e'.iface = e.iface ∧ e'.ann = e.ann) := by
  suffices h : ∃ e', u.paths.lookup D = some e' ∧ Improves e' e by
    obtain ⟨e', he', himproves⟩ := h
    refine ⟨e', he', himproves, fun hts hhops => ?_⟩
    rcases himproves with hbetter | hsame
    · rw [PathEntry.Better, hts, hhops] at hbetter
      exact absurd hbetter (PathEntry.Better.irrefl e)
    · rw [hsame]
      exact ⟨rfl, rfl, rfl⟩
  induction as generalizing w e with
  | nil =>
    cases hrun
    exact ⟨e, he, .inr rfl⟩
  | cons a as ih =>
    obtain ⟨v, hv, hrun⟩ := exec_cons.mp hrun
    have hfirst := (evicted_step hv).sublist.count_le D
    have hlater := (evicted_run hrun).sublist.count_le D
    have hstep : ∃ e', v.paths.lookup D = some e' ∧ Improves e' e := by
      have hcharts := step_charts hv
      have hstays : v.paths.evicted.count D = w.paths.evicted.count D := by omega
      generalize v.paths = pt at hcharts hstays ⊢
      cases hcharts with
      | same => exact ⟨e, he, .inr rfl⟩
      | announced | reversed => exact improves_update he hstays
    obtain ⟨e₁, he₁, himproves₁⟩ := hstep
    obtain ⟨e', he', himproves⟩ := ih he₁ hrun (by omega)
    exact ⟨e', he', himproves.trans himproves₁⟩

/-- The way over the third node stays when the peer itself is heard. --/
theorem paths_improve_third :
    ∃ w u e e', exec (next netEnv config) (new [] start) [.frame thirdAddr udp forwardedPacket 0] = some w ∧
    w.paths.lookup peerID = some e ∧ exec (next netEnv config) w [.frame peerAddr udp announcePacket 0] = some u ∧
    u.paths.lookup peerID = some e' ∧ Improves e' e := by
  have hrun : ((exec (next netEnv config) (new [] start) [.frame thirdAddr udp forwardedPacket 0]).bind fun w =>
      (w.paths.lookup peerID).bind fun _ =>
        (exec (next netEnv config) w [.frame peerAddr udp announcePacket 0]).map fun u =>
        (w.paths.evicted, u.paths.evicted)) = some ([], []) := by decide +kernel
  obtain ⟨w, hw, hrun⟩ := bind_eq_some_iff.mp hrun
  obtain ⟨e, he, hrun⟩ := bind_eq_some_iff.mp hrun
  obtain ⟨u, hu, hevicted⟩ := map_eq_some_iff.mp hrun
  obtain ⟨hw', hu'⟩ := Prod.mk.inj hevicted
  obtain ⟨e', he', himproves, -⟩ := paths_improve he hu (by rw [hw', hu'])
  exact ⟨w, u, e, e', hw, he, hu, he', himproves⟩

/-! ### What is told about a destination -/

def third : Config := { config with selfID := thirdID, signPriv := thirdPriv, signPub := thirdKey }

def far : AnnouncePayload := { peerAnnounce with hopCount := 255 }

def farJson : Bytes := announceText [50, 53, 53]

def farPacket : SignedPacket where
  id := .copy 32 (beBytes 32 0xbbe311ead7f5204292aea204e0a51fc703b3967e6d4972aa0923b41313aa2296)
  type := .announce
  timestamp := start
  sourceNode := selfID
  destGroup := "ANY"
  payloadSize := 399
  payload := farJson
  signerKey := config.signPub
  signature :=
    beBytes 32 0xe1ecd0188d2103055ee14eb0877ab6c6ebd3c390d77b79801ab32fa7a3bb803e ++
    beBytes 32 0xd11a5fe8c2eb593bb8c85fce0b89b0ca9bed2a116c5108c2d9c08a71c304e20c

def farEnv : Env :=
  envOf
    [(peerKey, peerAnnounce.signedBytes, announceSignature),
      (config.signPub, farPacket.canonicalBytes, farPacket.signature),
     (config.signPub, requestPacket.canonicalBytes, requestPacket.signature),
     (thirdKey, repeatedPacket.canonicalBytes, repeatedPacket.signature)]
    [(config.signPub, selfHash), (announceJson ++ startText, repeatedPacket.id.val)]
    { noJson with
      announce := codecOf [(peerAnnounce, announceJson), (far, farJson)]
      pathRequest := codecOf [(⟨peerID, 9, 0⟩, requestJson)] }

/-- A node with the announces that `forwardAnnounce` has yet to send: it runs by itself and first
    waits a random time. --/
structure Delayed where
  node : Discovery
  waiting : List AnnouncePayload

namespace Delayed

/-- An action of the node, or a waiting announce that goes out. --/
inductive Act where
  | act (a : Action)
  | forward (i : Nat)

/-- An announce that the node is to flood again waits until its turn comes. --/
def step (env : Env) (cfg : Config) (s : Delayed) : Act → Option (Delayed × List Emit)
  | .act a => (s.node.step env cfg a).map fun (u, emits) =>
      match rebroadcast env cfg s.node a with
      | some fwd => (⟨u, s.waiting ++ [fwd]⟩, [])
      | none => (⟨u, s.waiting⟩, emits)
  | .forward i => s.waiting[i]?.map fun fwd =>
      ({ s with waiting := s.waiting.eraseIdx i }, if s.node.stopped then [] else s.node.sendAnnounce env cfg fwd false)

/-- A step, without what it sends. --/
def next (env : Env) (cfg : Config) (s : Delayed) (x : Act) : Option Delayed := (step env cfg s x).map Prod.fst

/-- What is newer than the stored path to `D`, over this many hops, is nearer than what waits to be told about `D`. --/
def Nearer (s : Delayed) (D : String) (ts : Int) (hops : UInt8) : Prop :=
  (∀ e, s.node.paths.lookup D = some e → e.originTS < ts) → ∀ fwd ∈ s.waiting, fwd.destHash = D → hops < fwd.hopCount

/-- An announce that comes in has not used up all the hops that eight bits can count, and no path gets longer while
    it waits to be told. --/
def Short (env : Env) (cfg : Config) (s : Delayed) : Act → Prop
  | .act (.frame _ _ pkt _) =>
    (pkt.type = .announce → ∀ ap ∈ env.json.announce.unmarshal pkt.payload,
      ap.hopCount ≠ 255 ∧ s.Nearer ap.destHash ap.timestamp ap.hopCount) ∧
    (pkt.type = .routedDiscovery → ∀ ip, Brings cfg pkt ip → s.Nearer (ip.signerID env.sigs) ip.timestamp 1)
  | _ => True

/-- What waits is farther than what is stored. --/
structure Told (s : Delayed) : Prop where
  filed : ∀ D e ann, s.node.paths.lookup D = some e → e.ann = some ann → ann.destHash = D ∧ e.hops ≠ 255
  farther : ∀ fwd ∈ s.waiting, fwd.hopCount ≠ 0 ∧ ∀ e, s.node.paths.lookup fwd.destHash = some e → e.hops < fwd.hopCount

theorem lt_next {hops : UInt8} (h : hops ≠ 255) : hops < hops + 1 := by
  have hlt : hops.toNat ≠ 255 := fun heq => h (UInt8.toNat_inj.mp heq)
  have hmax := hops.toNat_lt
  rw [UInt8.lt_iff_toNat_lt, UInt8.toNat_add, show UInt8.toNat 1 = 1 from rfl]
  omega

theorem next_ne_zero {hops : UInt8} (h : hops ≠ 255) : hops + 1 ≠ 0 := fun hzero =>
  absurd (hzero ▸ lt_next h) (UInt8.not_lt.mpr UInt8.zero_le)

variable {s s' : Delayed}

/-- The entry after an update is the offered one or has the hops that it had before. --/
theorem Told.update (h : s.Told) {D : String} {new : PathEntry} {writer : Writer}
    (hnear : s.Nearer D new.originTS new.hops) {fwd : AnnouncePayload} (hfwd : fwd ∈ s.waiting) {e : PathEntry}
    (he : (s.node.paths.update env.pathIter D new writer).1.lookup fwd.destHash = some e) : e.hops < fwd.hopCount := by
  rcases PathTable.lookup_update he with ⟨hD, rfl, haccepts⟩ | ⟨old, lastSeen, hold, rfl⟩
  · by_cases hnewer : ∀ cur, s.node.paths.lookup D = some cur → cur.originTS < e.originTS
    · exact hnear hnewer fwd hfwd hD
    · -- it is as new as the stored one, so it is shorter
      simp only [not_forall] at hnewer
      obtain ⟨cur, hcur, hold⟩ := hnewer
      have hshorter := (haccepts cur hcur).resolve_left fun hlt => hold hlt
      exact UInt8.lt_trans hshorter.2 ((h.farther fwd hfwd).2 cur (hD ▸ hcur))
  · exact (h.farther fwd hfwd).2 old hold

theorem Told.charted (h : s.Told) (ha : Short env cfg s (.act a)) (hnext : Discovery.next env cfg s.node a = some u) :
    Told ⟨u, s.waiting⟩ := by
  have hcharts := step_charts hnext
  refine ⟨fun D e ann he hann => ?_, fun fwd hfwd => ⟨(h.farther fwd hfwd).1, fun e he => ?_⟩⟩
  · dsimp only at he
    generalize u.paths = pt at hcharts he
    cases hcharts with
    | same => exact h.filed D e ann he hann
    | announced _ htype hap =>
      rcases PathTable.lookup_update he with ⟨rfl, rfl, -⟩ | ⟨old, lastSeen, hold, rfl⟩
      · cases hann
        exact ⟨rfl, (ha.1 htype _ hap).1⟩
      · exact h.filed D old ann hold hann
    | reversed =>
      rcases PathTable.lookup_update he with ⟨-, rfl, -⟩ | ⟨old, lastSeen, hold, rfl⟩
      · cases hann
      · exact h.filed D old ann hold hann
  · dsimp only at he
    generalize u.paths = pt at hcharts he
    cases hcharts with
    | same => exact (h.farther fwd hfwd).2 e he
    | announced _ htype hap => exact h.update (ha.1 htype _ hap).2 hfwd he
    | reversed _ htype hip => exact h.update (ha.2 htype _ hip) hfwd he

theorem Told.step {x : Act} (h : s.Told) (hx : Short env cfg s x) (hnext : next env cfg s x = some s') : s'.Told := by
  obtain ⟨⟨t, emits⟩, hstep, rfl⟩ := map_eq_some_iff.mp hnext
  cases x with
  | act a =>
    obtain ⟨⟨u, emits'⟩, hact, heq⟩ := map_eq_some_iff.mp hstep
    have hu : Discovery.next env cfg s.node a = some u := map_eq_some_iff.mpr ⟨_, hact, rfl⟩
    have hcharted := h.charted hx hu
    dsimp only at heq
    split at heq
    · next fwd hfwd =>
      cases heq
      obtain ⟨u', remoteAddr, ap, hu', hcopy, rfl⟩ := rebroadcast_spec hfwd
      cases hu.symm.trans hu'
      have hne : ap.hopCount ≠ 255 := fun heq => absurd (heq ▸ hcopy.hops) (by decide)
      refine ⟨hcharted.filed, fun fwd hfwd => ?_⟩
      rcases mem_append_single.mp hfwd with hfwd | rfl
      · exact hcharted.farther fwd hfwd
      refine ⟨next_ne_zero hne, fun e he => ?_⟩
      dsimp only at he
      rw [hcopy.stored] at he
      rcases PathTable.lookup_store he with ⟨-, rfl⟩ | ⟨hother, -⟩
      · exact lt_next hne
      · exact absurd rfl hother
    · cases heq
      exact hcharted
  | forward i =>
    obtain ⟨fwd, -, heq⟩ := map_eq_some_iff.mp hstep
    cases heq
    exact ⟨h.filed, fun fwd hfwd => h.farther fwd (mem_of_mem_eraseIdx hfwd)⟩

/-- What a step of the node itself tells. --/
theorem Told.tells (h : s.Told) {emits : List Emit} {m : Emit} (hstep : s.node.step env cfg a = some (u, emits))
    (hm : m ∈ emits) (htype : m.pkt.type = .announce) :
    ∃ ap, m.pkt.payload = env.json.announce.marshal ap ∧ (ap.destHash = cfg.selfID ∨
      ap.hopCount ≠ 0 ∧ ∀ e, u.paths.lookup ap.destHash = some e → e.hops < ap.hopCount) := by
  obtain ⟨ap, hpayload, htells⟩ := step_tells hstep hm htype
  refine ⟨ap, hpayload, ?_⟩
  cases htells with
  | own hap =>
    rw [buildSelfAnnounce] at hap
    split at hap
    · cases hap
    · cases hap
      refine .inl ?_
      rw [AnnouncePayload.sign]
      split <;> rfl
  | @forwarded _ _ ap remoteAddr _ hhops _ hstore =>
    have hne : ap.hopCount ≠ 255 := fun heq => absurd (heq ▸ hhops) (by decide)
    refine .inr ⟨next_ne_zero hne, fun e he => ?_⟩
    rw [hstore] at he
    rcases PathTable.lookup_store he with ⟨-, rfl⟩ | ⟨hother, -⟩
    · exact lt_next hne
    · exact absurd rfl hother
  | @answered _ _ _ _ _ pr e ann _ _ he hann hsame =>
    obtain ⟨hdest, hne⟩ := h.filed _ e ann he hann
    refine .inr ⟨next_ne_zero hne, fun e' he' => ?_⟩
    rw [hsame, show ({ ann with hopCount := e.hops + 1 } : AnnouncePayload).destHash = pr.destHash from hdest] at he'
    cases he.symm.trans he'
    exact lt_next hne

/-- In every run in which no announce comes in with 255 hops, and no path gets longer while it waits to be told,
    what the node tells about a destination other than itself is farther than what it stores, so it is never told
    as if at first hand. --/
theorem told_farther {xs : List Act} {x : Act} {capabilities : List String} {start : Int} {emits : List Emit}
    {m : Emit} (hmeets : Along (next env cfg) (Short env cfg) ⟨new capabilities start, []⟩ xs)
    (hrun : exec (next env cfg) ⟨new capabilities start, []⟩ xs = some s)
    (hstep : step env cfg s x = some (s', emits)) (hm : m ∈ emits) (htype : m.pkt.type = .announce) :
    ∃ ap, m.pkt.payload = env.json.announce.marshal ap ∧ (ap.destHash = cfg.selfID ∨
      ap.hopCount ≠ 0 ∧ ∀ e, s'.node.paths.lookup ap.destHash = some e → e.hops < ap.hopCount) := by
  have hnew : Told ⟨new capabilities start, []⟩ := by
    refine ⟨fun D e _ he => ?_, fun fwd hfwd => absurd hfwd not_mem_nil⟩
    cases (GoMap.get?_empty D).symm.trans he
  have htold : s.Told := exec_keeps_along (fun _ _ _ hx h hnext => h.step hx hnext) hnew hmeets hrun
  cases x with
  | act a =>
    obtain ⟨⟨u, emits'⟩, hact, heq⟩ := map_eq_some_iff.mp hstep
    dsimp only at heq
    split at heq
    · cases heq
      cases hm
    · cases heq
      exact htold.tells hact hm htype
  | forward i =>
    obtain ⟨fwd, hfwd, heq⟩ := map_eq_some_iff.mp hstep
    cases heq
    split at hm
    · cases hm
    · exact ⟨fwd, pkt_sendAnnounce hm, .inr (htold.farther fwd (mem_of_getElem? hfwd))⟩

/-- The peer's announce waits at the third node, which meanwhile answers a request, and is then forwarded. --/
theorem told_farther_third : ∃ s s' emits m ap, exec (next netEnv third) ⟨new ["relay"] start, []⟩
      [.act (.frame peerAddr udp announcePacket 0), .act (.frame selfAddr udp requestPacket 0)] = some s ∧
    step netEnv third s (.forward 0) = some (s', emits) ∧ m ∈ emits ∧ m.pkt.payload = netEnv.json.announce.marshal ap ∧
    (ap.destHash = thirdID ∨ ap.hopCount ≠ 0 ∧ ∀ e, s'.node.paths.lookup ap.destHash = some e →
      e.hops < ap.hopCount) := by
  have hrun : ((exec (next netEnv third) ⟨new ["relay"] start, []⟩
      [.act (.frame peerAddr udp announcePacket 0), .act (.frame selfAddr udp requestPacket 0)]).bind fun s =>
      (step netEnv third s (.forward 0)).bind fun out =>
        (out.2.find? fun m => m.pkt.type = .announce).map fun _ => ()) = some () := by decide +kernel
  obtain ⟨s, hs, hrun⟩ := bind_eq_some_iff.mp hrun
  obtain ⟨⟨s', emits⟩, hstep, hrun⟩ := bind_eq_some_iff.mp hrun
  obtain ⟨m, hm, -⟩ := map_eq_some_iff.mp hrun
  have hannounce : netEnv.json.announce.unmarshal announcePacket.payload = some peerAnnounce := by decide +kernel
  have hmeets : Along (next netEnv third) (Short netEnv third) ⟨new ["relay"] start, []⟩
      [.act (.frame peerAddr udp announcePacket 0), .act (.frame selfAddr udp requestPacket 0)] := by
    refine ⟨⟨fun _ ap hap => mem_unique hannounce hap ▸ ⟨by decide, fun _ _ hfwd => absurd hfwd not_mem_nil⟩, ?_⟩,
      fun _ _ => ⟨⟨?_, ?_⟩, ?_⟩⟩
    · exact fun htype => absurd htype (by decide)
    · exact fun htype => absurd htype (by decide)
    · exact fun htype => absurd htype (by decide)
    · exact fun _ _ => trivial
  obtain ⟨ap, hpayload, htold⟩ := told_farther hmeets hs hstep (mem_of_find?_eq_some hm) (by simpa using find?_some hm)
  exact ⟨s, s', emits, m, ap, hs, hstep, mem_of_find?_eq_some hm, hpayload, htold⟩

/-- An announce of the peer that is said to have come over 255 hops makes the third node answer a request with the
    announce itself, as if the peer spoke. --/
theorem told_first_hand :
    ∃ s s' emits m, exec (next farEnv third) ⟨new [] start, []⟩ [.act (.frame selfAddr udp farPacket 0)] = some s ∧
    step farEnv third s (.act (.frame selfAddr udp requestPacket 0)) = some (s', emits) ∧ m ∈ emits ∧
      m.pkt.type = .announce ∧
    farEnv.json.announce.unmarshal m.pkt.payload = some peerAnnounce ∧ peerAnnounce.hopCount = 0 ∧
      peerAnnounce.destHash ≠ thirdID ∧
    ∃ e, s'.node.paths.lookup peerID = some e ∧ e.hops = 255 := by
  have hrun : ((exec (next farEnv third) ⟨new [] start, []⟩ [.act (.frame selfAddr udp farPacket 0)]).bind fun s =>
      (step farEnv third s (.act (.frame selfAddr udp requestPacket 0))).bind fun out => out.2.head?.bind fun m =>
        (out.1.node.paths.lookup peerID).map fun e =>
          (m.pkt.type, farEnv.json.announce.unmarshal m.pkt.payload, e.hops)) =
      some (.announce, some peerAnnounce, 255) := by decide +kernel
  obtain ⟨s, hs, hrun⟩ := bind_eq_some_iff.mp hrun
  obtain ⟨⟨s', emits⟩, hstep, hrun⟩ := bind_eq_some_iff.mp hrun
  obtain ⟨m, hm, hrun⟩ := bind_eq_some_iff.mp hrun
  obtain ⟨e, he, hsent⟩ := map_eq_some_iff.mp hrun
  simp only [Prod.mk.injEq] at hsent
  exact ⟨s, s', emits, m, hs, hstep, mem_of_head? hm, hsent.1, hsent.2.1, rfl, by decide, e, he, hsent.2.2⟩

end Delayed
end Discovery
end SyncSwarm.Discovery
