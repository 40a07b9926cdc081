import SyncSwarm.Theorems.Discovery.Windows
import SyncSwarm.Theorems.Discovery.Announces
import SyncSwarm.Theorems.Discovery.Freshness
import SyncSwarm.Theorems.Protocol.Statements

/-! The floods of announces. A node re-broadcasts an announce only when it stores it, so with each copy the
    stored path gets shorter. -/

set_option linter.dupNamespace false

namespace SyncSwarm.Discovery
open Lib Protocol List Option

namespace Discovery
variable {env : Env} {cfg : Config} {w u : Discovery} {a : Action} {as : List Action} {addr remoteAddr D : String}
  {srcIface : Interface}
  {pkt : SignedPacket} {nonce : UInt64} {ap fwd ann : AnnouncePayload} {ts : Int}

/-! ### Re-broadcasts -/

/-- Whether `handleAnnounce` schedules an announce for re-broadcast after it has accepted it. --/
def refloods (env : Env) (cfg : Config) (w : Discovery) (remoteAddr : String) (ap : AnnouncePayload) : Bool :=
  (w.paths.update env.pathIter ap.destHash (announcedPath cfg ap remoteAddr w.now) .announced).2 && w.isTransport &&
    ap.hopCount.toNat + 1 ≤ announceHopMax

def reflooded (env : Env) (cfg : Config) (w : Discovery) (remoteAddr : String) (pkt : SignedPacket) :
    Option AnnouncePayload :=
  (env.json.announce.unmarshal pkt.payload).bind fun ap =>
    if ap.destHash = cfg.selfID ∨ ap.verifyBound env.sigs = false then none
    else if (w.seenAnn.observe w.now (announceKey ap)).1 = true then none
    else if w.refloods env cfg remoteAddr ap = true then some { ap with hopCount := ap.hopCount + 1 }
    else none

/-- The announce that an action makes the node flood again. --/
def rebroadcast (env : Env) (cfg : Config) (w : Discovery) : Action → Option AnnouncePayload
  | .frame addr _ pkt _ => (env.net.resolve addr).bind fun remoteAddr =>
      if pkt.type = .announce ∧ pkt.verify env.sigs = true then w.reflooded env cfg remoteAddr pkt else none
  | _ => none

/-! ### What is sent -/

theorem emits_acceptAnnounce (w : Discovery) : (w.acceptAnnounce env cfg remoteAddr ap).2 =
    if w.refloods env cfg remoteAddr ap = true then
      (w.acceptAnnounce env cfg remoteAddr ap).1.sendAnnounce env cfg { ap with hopCount := ap.hopCount + 1 } false
    else [] := by
  rw [acceptAnnounce, sighted_eq]
  rfl

theorem paths_acceptAnnounce (w : Discovery) : (w.acceptAnnounce env cfg remoteAddr ap).1.paths =
    (w.paths.update env.pathIter ap.destHash (announcedPath cfg ap remoteAddr w.now) .announced).1 :=
  congrArg Core.paths (core_acceptAnnounce ap)

structure Alike (w v : Discovery) : Prop where
  peers : v.peers = w.peers
  paths : v.paths = w.paths
  seenAnn : v.seenAnn = w.seenAnn
  capabilities : v.capabilities = w.capabilities
  now : v.now = w.now

theorem alike_rememberIface (id : String) (i : Interface) : Alike w (w.rememberIface id i) where
  peers := congrArg Core.peers (core_rememberIface id i)
  paths := congrArg Core.paths (core_rememberIface id i)
  seenAnn := congrArg Shell.seenAnn (shell_rememberIface id i)
  capabilities := capabilities_rememberIface id i
  now := now_rememberIface id i

theorem alike_rememberAddrIface (addr : String) (i : Interface) : Alike w (w.rememberAddrIface addr i) where
  peers := congrArg Core.peers (core_rememberAddrIface addr i)
  paths := congrArg Core.paths (core_rememberAddrIface addr i)
  seenAnn := congrArg Shell.seenAnn (shell_rememberAddrIface addr i)
  capabilities := capabilities_rememberAddrIface addr i
  now := now_rememberAddrIface addr i

theorem Alike.trans {v v' : Discovery} (h : Alike w v) (h' : Alike v v') : Alike w v' :=
  ⟨h'.peers.trans h.peers, h'.paths.trans h.paths, h'.seenAnn.trans h.seenAnn, h'.capabilities.trans h.capabilities,
    h'.now.trans h.now⟩

theorem refloods_congr {v : Discovery} (hpaths : v.paths = w.paths) (hcapabilities : v.capabilities = w.capabilities)
    (hnow : v.now = w.now) :
    v.refloods env cfg remoteAddr ap = w.refloods env cfg remoteAddr ap := by
  rw [refloods, refloods, hpaths, hnow, isTransport, isTransport, hcapabilities]

theorem Alike.reflooded {v : Discovery} (h : Alike w v) :
    v.reflooded env cfg remoteAddr pkt = w.reflooded env cfg remoteAddr pkt := by
  simp only [Discovery.reflooded, refloods_congr h.paths h.capabilities h.now, h.seenAnn, h.now]

theorem receive_announce (hresolve : env.net.resolve addr = some remoteAddr) (htype : pkt.type = .announce)
    (hverify : pkt.verify env.sigs = true) :
    ∃ v, Alike w v ∧ w.receive env cfg addr srcIface pkt nonce = v.handleAnnounce env cfg remoteAddr srcIface pkt := by
  have hsigned : ¬pkt.verify env.sigs = false := ne_false_of_eq_true hverify
  have hfrom : Alike w (w.rememberAddrIface addr srcIface) := alike_rememberAddrIface addr srcIface
  rw [receive, hresolve]
  simp only [htype, if_neg hsigned, handleSigned]
  generalize w.rememberAddrIface addr srcIface = v at hfrom ⊢
  have hheard : Alike v { v with heard := v.heard ++ [pkt] } := ⟨rfl, rfl, rfl, rfl, rfl⟩
  exact ⟨_, (hfrom.trans hheard).trans (alike_rememberIface (pkt.signerID env.sigs) srcIface), rfl⟩

theorem observe_rememberIface (id : String) (i : Interface) (key : String) :
    (w.rememberIface id i).seenAnn.observe (w.rememberIface id i).now key = w.seenAnn.observe w.now key := by
  rw [(alike_rememberIface id i).seenAnn, now_rememberIface]

theorem handleAnnounce_seen (hap : env.json.announce.unmarshal pkt.payload = some ap)
    (hseen : (w.seenAnn.observe w.now (announceKey ap)).1 = true) :
    (w.handleAnnounce env cfg remoteAddr srcIface pkt).2 = [] ∧
      (w.handleAnnounce env cfg remoteAddr srcIface pkt).1.core = w.core := by
  have hsame := core_rememberIface (w := w) ap.destHash srcIface
  rw [← observe_rememberIface ap.destHash srcIface, announceKey] at hseen
  rw [handleAnnounce, hap]
  simp only [hseen, if_true]
  split
  · exact ⟨rfl, rfl⟩
  · exact ⟨rfl, hsame⟩

theorem handleAnnounce_new (hap : env.json.announce.unmarshal pkt.payload = some ap)
    (htests : ¬(ap.destHash = cfg.selfID ∨ ap.verifyBound env.sigs = false))
    (hnew : ¬(w.seenAnn.observe w.now (announceKey ap)).1 = true) :
    ∃ v : Discovery, v.peers = w.peers ∧ v.paths = w.paths ∧ v.capabilities = w.capabilities ∧ v.now = w.now ∧
      w.handleAnnounce env cfg remoteAddr srcIface pkt = v.acceptAnnounce env cfg remoteAddr ap := by
  have hsame : Alike w (w.rememberIface ap.destHash srcIface) := alike_rememberIface ap.destHash srcIface
  rw [← observe_rememberIface ap.destHash srcIface, announceKey] at hnew
  rw [handleAnnounce, hap]
  simp only [if_neg htests, if_neg hnew]
  refine ⟨_, ?_, ?_, ?_, ?_, rfl⟩
  · exact hsame.peers
  · exact hsame.paths
  · exact hsame.capabilities
  · exact hsame.now

theorem emits_handleAnnounce (w : Discovery) : (w.handleAnnounce env cfg remoteAddr srcIface pkt).2 =
    (w.reflooded env cfg remoteAddr pkt).elim []
      fun fwd => (w.handleAnnounce env cfg remoteAddr srcIface pkt).1.sendAnnounce env cfg fwd false := by
  rw [reflooded]
  cases hap : env.json.announce.unmarshal pkt.payload with
  | none =>
    rw [handleAnnounce, hap]
    rfl
  | some ap =>
    simp only [bind_some]
    by_cases htests : ap.destHash = cfg.selfID ∨ ap.verifyBound env.sigs = false
    · rw [if_pos htests, handleAnnounce, hap]
      simp only [if_pos htests]
      rfl
    rw [if_neg htests]
    by_cases hseen : (w.seenAnn.observe w.now (announceKey ap)).1 = true
    · rw [if_pos hseen, (handleAnnounce_seen hap hseen).1]
      rfl
    obtain ⟨v, -, hpaths, hcapabilities, hnow, haccept⟩ :=
      @handleAnnounce_new env cfg w remoteAddr srcIface pkt ap hap htests hseen
    rw [if_neg hseen, haccept, emits_acceptAnnounce, refloods_congr hpaths hcapabilities hnow]
    split <;> rfl

theorem emits_announce (htype : pkt.type = .announce) : (w.receive env cfg addr srcIface pkt nonce).2 =
    (rebroadcast env cfg w (.frame addr srcIface pkt nonce)).elim []
      fun fwd => (w.receive env cfg addr srcIface pkt nonce).1.sendAnnounce env cfg fwd false := by
  rw [rebroadcast]
  cases hresolve : env.net.resolve addr with
  | none =>
    rw [receive_unresolved hresolve]
    rfl
  | some remoteAddr =>
    rw [bind_some]
    by_cases hverify : pkt.verify env.sigs = true
    · obtain ⟨v, hv, hreceive⟩ := @receive_announce env cfg w addr remoteAddr srcIface pkt nonce hresolve htype hverify
      rw [if_pos ⟨htype, hverify⟩, hreceive, emits_handleAnnounce, hv.reflooded]
    · have hdropped : ¬(pkt.type = .announce ∧ pkt.verify env.sigs = true) := fun h => hverify h.2
      rw [if_neg hdropped, receive, hresolve]
      simp only [htype, if_pos (eq_false_of_ne_true hverify)]
      rfl

structure Rebroadcasts (env : Env) (cfg : Config) (w : Discovery) (a : Action) (u : Discovery) (remoteAddr : String)
    (ap : AnnouncePayload) : Prop where
  read : ∃ b, env.json.announce.unmarshal b = some ap
  bound : ap.verifyBound env.sigs = true
  key : floodKeyOf env cfg a = some (announceKey ap)
  new : (w.seenAnn.observe w.now (announceKey ap)).1 = false
  accepts : w.paths.Accepts ap.destHash (announcedPath cfg ap remoteAddr w.now)
  hops : ap.hopCount.toNat + 1 ≤ announceHopMax
  stored : u.paths = w.paths.store env.pathIter ap.destHash (announcedPath cfg ap remoteAddr w.now) .announced

theorem rebroadcast_spec (h : rebroadcast env cfg w a = some fwd) : ∃ u remoteAddr ap, next env cfg w a = some u ∧
    Rebroadcasts env cfg w a u remoteAddr ap ∧ fwd = { ap with hopCount := ap.hopCount + 1 } := by
  rcases frame_or a with ⟨addr, srcIface, pkt, nonce, rfl⟩ | hframe
  swap
  · cases a with
    | frame addr srcIface pkt nonce => exact absurd rfl (hframe addr srcIface pkt nonce)
    | _ => cases h
  obtain ⟨remoteAddr, hresolve, h⟩ := bind_eq_some_iff.mp h
  split at h
  swap
  · cases h
  next hsigned =>
  obtain ⟨htype, hverify⟩ := hsigned
  obtain ⟨ap, hap, h⟩ := bind_eq_some_iff.mp h
  split at h
  · cases h
  next htests =>
  split at h
  · cases h
  next hseen =>
  split at h
  swap
  · cases h
  next hrefloods =>
  simp only [refloods, Bool.and_eq_true, decide_eq_true_eq] at hrefloods
  obtain ⟨⟨hstored, -⟩, hhops⟩ := hrefloods
  obtain ⟨haccepts, hstore⟩ := PathTable.update_stored hstored
  obtain ⟨v, hv, hreceive⟩ := @receive_announce env cfg w addr remoteAddr srcIface pkt nonce hresolve htype hverify
  rw [← hv.seenAnn, ← hv.now] at hseen
  obtain ⟨v', -, hpaths, -, hnow, haccept⟩ := @handleAnnounce_new env cfg v remoteAddr srcIface pkt ap hap htests hseen
  refine ⟨_, remoteAddr, ap, rfl, ⟨⟨_, hap⟩, eq_true_of_ne_false (not_or.mp htests).2, ?_, ?_, haccepts, hhops, ?_⟩,
    (Option.some.inj h).symm⟩
  · rw [floodKeyOf, hresolve, isSome_some, if_pos rfl, signedKey, if_neg (ne_false_of_eq_true hverify), floodKey, htype]
    simp only [hap, bind_some, if_neg htests]
  · rw [hv.seenAnn, hv.now] at hseen
    exact eq_false_of_ne_true hseen
  · rw [hreceive, haccept, paths_acceptAnnounce, hpaths, hnow, hv.paths, hv.now]
    exact hstore

/-! ### How often -/

/-- The step schedules a copy of this announce: what it has signed is the same. --/
def repeats (env : Env) (cfg : Config) (ann : AnnouncePayload) (w : Discovery) (a : Action) : Bool :=
  (rebroadcast env cfg w a).any fun fwd => fwd.signedBytes = ann.signedBytes

theorem entry_step {e : PathEntry} (hnext : next env cfg w a = some u)
    (hkept : u.paths.evicted.count D = w.paths.evicted.count D) (he : w.paths.lookup D = some e) :
    ∃ e', u.paths.lookup D = some e' ∧ (e'.Better e ∨ e'.originTS = e.originTS ∧ e'.hops = e.hops) := by
  have hupdate : ∀ dest new writer, (w.paths.update env.pathIter dest new writer).1.evicted.count D =
    w.paths.evicted.count D →
      ∃ e', (w.paths.update env.pathIter dest new writer).1.lookup D = some e' ∧
        (e'.Better e ∨ e'.originTS = e.originTS ∧ e'.hops = e.hops) := by
    intro dest new writer hkept
    rcases PathTable.lookup_update_of_kept hkept with ⟨rfl, haccepts, -, hnew⟩ | hsame | ⟨old, lastSeen, hold, hsame⟩
    · exact ⟨new, hnew, .inl (haccepts e he)⟩
    · exact ⟨e, hsame.trans he, .inr ⟨rfl, rfl⟩⟩
    · cases he.symm.trans hold
      exact ⟨_, hsame, .inr ⟨rfl, rfl⟩⟩
  have hcharts := step_charts hnext
  generalize u.paths = pt at hcharts hkept ⊢
  cases hcharts with
  | same => exact ⟨e, he, .inr ⟨rfl, rfl⟩⟩
  | announced | reversed => exact hupdate _ _ _ hkept

theorem evicted_step (hnext : next env cfg w a = some u) : w.paths.evicted <:+ u.paths.evicted := by
  have hcharts := step_charts hnext
  generalize u.paths = pt at hcharts ⊢
  cases hcharts with
  | same => exact suffix_rfl
  | announced | reversed => exact PathTable.evicted_update

theorem evicted_run (hrun : exec (next env cfg) w as = some u) : w.paths.evicted <:+ u.paths.evicted :=
  exec_keeps (P := fun v => w.paths.evicted <:+ v.paths.evicted)
    (fun _ _ _ h hnext => h.trans (evicted_step hnext)) suffix_rfl hrun

/-- After `n` copies of an announce the entry is of a newer one, or at least as many hops shorter
    than the longest way. --/
def Spent (D : String) (ts : Int) (pt : PathTable) (n : Nat) : Prop :=
  n = 0 ∨ n ≤ announceHopMax ∧ ∃ e, pt.lookup D = some e ∧
    (ts < e.originTS ∨ e.originTS = ts ∧ e.hops.toNat + n ≤ announceHopMax)

theorem Spent.length_le {pt : PathTable} {n : Nat} (h : Spent D ts pt n) : n ≤ announceHopMax :=
  h.elim (fun hzero => hzero ▸ Nat.zero_le _) And.left

theorem Spent.step {n : Nat} (h : Spent D ts w.paths n) (hnext : next env cfg w a = some u)
    (hkept : u.paths.evicted.count D = w.paths.evicted.count D) : Spent D ts u.paths n := by
  rcases h with hzero | ⟨hle, e, he, hspent⟩
  · exact .inl hzero
  obtain ⟨e', he', hbetter⟩ := entry_step hnext hkept he
  refine .inr ⟨hle, e', he', ?_⟩
  rw [PathEntry.Better, UInt8.lt_iff_toNat_lt] at hbetter
  rcases hbetter with (hnewer | ⟨hts, hhops⟩) | ⟨hts, hhops⟩
  · exact .inl (by omega)
  · omega
  · rw [hts, hhops]
    exact hspent

theorem Spent.rebroadcast {n : Nat} (h : Spent ap.destHash ap.timestamp w.paths n)
    (hcopy : Rebroadcasts env cfg w a u remoteAddr ap)
    (hkept : u.paths.evicted.count ap.destHash = w.paths.evicted.count ap.destHash) :
    Spent ap.destHash ap.timestamp u.paths (n + 1) := by
  have hentry : u.paths.lookup ap.destHash = some (announcedPath cfg ap remoteAddr w.now) := by
    rw [hcopy.stored] at hkept ⊢
    rw [PathTable.lookup_store_of_kept hkept, if_pos rfl]
  have hfits : ap.hopCount.toNat + (n + 1) ≤ announceHopMax := by
    rcases h with rfl | ⟨-, e, he, hspent⟩
    · exact hcopy.hops
    · have hbetter : e.originTS < ap.timestamp ∨ ap.timestamp = e.originTS ∧ ap.hopCount.toNat < e.hops.toNat :=
        (hcopy.accepts e he).imp_right fun h => ⟨h.1, UInt8.lt_iff_toNat_lt.mp h.2⟩
      omega
  exact .inr ⟨Nat.le_trans (Nat.le_add_left _ _) hfits, _, hentry, .inr ⟨rfl, hfits⟩⟩

theorem repeats_spec (htimed : ∀ b ap, env.json.announce.unmarshal b = some ap → ap.Timed)
    (hbound : ann.verifyBound env.sigs = true) (hann : ann.Timed) (h : repeats env cfg ann w a = true) :
    ∃ u remoteAddr ap, next env cfg w a = some u ∧
      Rebroadcasts env cfg w a u remoteAddr ap ∧ ap.destHash = ann.destHash ∧ ap.timestamp = ann.timestamp ∧
        ap.nonce = ann.nonce := by
  obtain ⟨fwd, hfwd, hsame⟩ := (any_eq_true _ _).mp h
  obtain ⟨u, remoteAddr, ap, hnext, hcopy, rfl⟩ := rebroadcast_spec hfwd
  obtain ⟨b, hread⟩ := hcopy.read
  have hsigned : ap.signedBytes = ann.signedBytes := of_decide_eq_true hsame
  exact ⟨u, remoteAddr, ap, hnext, hcopy, AnnouncePayload.origin_of_signedBytes hcopy.bound hbound
    (htimed b ap hread) hann hsigned⟩

/-- The times at which a run floods the announce again. --/
def schedule (env : Env) (cfg : Config) (ann : AnnouncePayload) (w : Discovery) (as : List Action) : List Int :=
  outputs (next env cfg) (fun w a => if repeats env cfg ann w a = true then [w.now] else []) w as

theorem schedule_apart (htimed : ∀ b ap, env.json.announce.unmarshal b = some ap → ap.Timed)
    (hbound : ann.verifyBound env.sigs = true) (hann : ann.Timed) (hrun : exec (next env cfg) w as = some u) :
    Apart (schedule env cfg ann w as) := by
  refine apart_of_new (announceKey ann) (fun w a u hnext => (seen_step hnext).1) (fun w a hrepeats => ?_) hrun
  obtain ⟨u', remoteAddr, ap, -, hcopy, hdest, -, hnonce⟩ := repeats_spec htimed hbound hann hrepeats
  have hkey : announceKey ap = announceKey ann := by rw [announceKey, announceKey, hdest, hnonce]
  exact ⟨hkey ▸ hcopy.key, hkey ▸ hcopy.new⟩

theorem length_schedule_le (htimed : ∀ b ap, env.json.announce.unmarshal b = some ap → ap.Timed)
    (hbound : ann.verifyBound env.sigs = true) (hann : ann.Timed) (hrun : exec (next env cfg) w as = some u)
    (hkept : u.paths.evicted.count ann.destHash = w.paths.evicted.count ann.destHash) :
    (schedule env cfg ann w as).length ≤ announceHopMax := by
  -- Evictions are never undone, so there was none at any step.
  let count (v : Discovery) : Nat := v.paths.evicted.count ann.destHash
  let P : Discovery → List Int → Prop := fun v times =>
    count w ≤ count v ∧ (count v = count w → Spent ann.destHash ann.timestamp v.paths times.length)
  suffices h : P u (schedule env cfg ann w as) from (h.2 hkept).length_le
  refine outputs_keep_along (C := fun _ _ => True) (P := P) (l := []) ?_ ⟨Nat.le_refl _, fun _ => .inl rfl⟩
    (Along.of_forall fun _ _ _ => trivial) hrun
  rintro s a t times - ⟨hle, hspent⟩ hnext
  have hgrows : count s ≤ count t := (evicted_step hnext).sublist.count_le _
  refine ⟨Nat.le_trans hle hgrows, fun heq => ?_⟩
  have hstays : count t = count s := by omega
  have hspent := hspent (hstays.symm.trans heq)
  by_cases hrepeats : repeats env cfg ann s a = true
  · obtain ⟨t', remoteAddr, ap, hnext', hcopy, hdest, hts, -⟩ := repeats_spec htimed hbound hann hrepeats
    cases hnext.symm.trans hnext'
    rw [if_pos hrepeats, length_append, length_singleton]
    rw [← hdest, ← hts] at hspent ⊢
    exact hspent.rebroadcast hcopy (hdest ▸ hstays)
  · rw [if_neg hrepeats, append_nil]
    exact hspent.step hnext hstays

/-- Whatever comes in, the copies of one announce that a node schedules are a window apart, and as long as the entry of
    its destination is not evicted there are at most 128 of them. Each has one hop more than the copy that was stored
    with it, and no more than the most; nothing else is sent because of an announce. --/
theorem floods_contained (htimed : ∀ b ap, env.json.announce.unmarshal b = some ap → ap.Timed)
    (hbound : ann.verifyBound env.sigs = true) (hann : ann.Timed) (hrun : exec (next env cfg) w as = some u) :
    Apart (schedule env cfg ann w as) ∧
    (u.paths.evicted.count ann.destHash = w.paths.evicted.count ann.destHash →
      (schedule env cfg ann w as).length ≤ 128) ∧
    ∀ v : Discovery,
      (∀ a fwd, rebroadcast env cfg v a = some fwd → fwd.hopCount.toNat ≤ announceHopMax ∧
        ∃ t remoteAddr ap, next env cfg v a = some t ∧
        t.paths = v.paths.store env.pathIter ap.destHash (announcedPath cfg ap remoteAddr v.now) .announced ∧
        fwd = { ap with hopCount := ap.hopCount + 1 } ∧ fwd.hopCount.toNat = ap.hopCount.toNat + 1) ∧
      ∀ addr srcIface pkt nonce, pkt.type = .announce → (v.receive env cfg addr srcIface pkt nonce).2 =
        (rebroadcast env cfg v (.frame addr srcIface pkt nonce)).elim []
          fun fwd => (v.receive env cfg addr srcIface pkt nonce).1.sendAnnounce env cfg fwd false := by
  refine ⟨schedule_apart htimed hbound hann hrun, length_schedule_le htimed hbound hann hrun, fun v =>
    ⟨fun a fwd hfwd => ?_,
    fun addr srcIface pkt nonce htype => emits_announce htype⟩⟩
  obtain ⟨t, remoteAddr, ap, hnext, hcopy, rfl⟩ := rebroadcast_spec hfwd
  have hmax : ap.hopCount.toNat + 1 ≤ 128 := hcopy.hops
  have hadd : (ap.hopCount + 1).toNat = ap.hopCount.toNat + 1 := by
    rw [UInt8.toNat_add, show UInt8.toNat 1 = 1 from rfl]
    exact Nat.mod_eq_of_lt (by omega)
  exact ⟨hadd ▸ hcopy.hops, t, remoteAddr, ap, hnext, hcopy.stored, rfl, hadd⟩

open Trio

theorem floods_contained_twice : ∃ u, exec (next freshEnv config) (new ["relay"] start)
      [.frame peerAddr udp announcePacket 0, .tick 300000000000, .frame peerAddr udp announcePacket 0] = some u ∧
    schedule freshEnv config peerAnnounce (new ["relay"] start)
      [.frame peerAddr udp announcePacket 0, .tick 300000000000, .frame peerAddr udp announcePacket 0] = [start] ∧
    Apart [start] ∧ [start].length ≤ 128 := by
  have hrun : (exec (next freshEnv config) (new ["relay"] start)
      [.frame peerAddr udp announcePacket 0, .tick 300000000000, .frame peerAddr udp announcePacket 0]).map
        (fun u => u.paths.evicted) =
        some [] := by decide +kernel
  have hschedule : schedule freshEnv config peerAnnounce (new ["relay"] start)
      [.frame peerAddr udp announcePacket 0, .tick 300000000000, .frame peerAddr udp announcePacket 0] =
        [start] := by decide +kernel
  obtain ⟨u, hu, hevicted⟩ := map_eq_some_iff.mp hrun
  have htimed : ∀ b ap, freshEnv.json.announce.unmarshal b = some ap → ap.Timed := by
    intro b ap hap
    obtain ⟨entry, hentry, rfl⟩ := map_eq_some_iff.mp hap
    rw [mem_singleton.mp (mem_of_find?_eq_some hentry)]
    exact ⟨by decide, by decide⟩
  have hbound : peerAnnounce.verifyBound freshEnv.sigs = true := by decide +kernel
  have hann : peerAnnounce.Timed := ⟨by decide, by decide⟩
  have hcontained := floods_contained htimed hbound hann hu
  refine ⟨u, hu, hschedule, hschedule ▸ hcontained.1, hschedule ▸ hcontained.2.1 ?_⟩
  rw [hevicted]
  rfl

end Discovery
end SyncSwarm.Discovery
