import SyncSwarm.Theorems.Discovery.Handles

/-! What a step of a node does to the records of peers, to the path table and to the latency checks. -/

set_option linter.dupNamespace false

namespace SyncSwarm.Discovery
open Lib Protocol List Option

def Probe.Fresh (x : Probe) : Prop := x.phase = .queued ∧ x.sent = none ∧ x.reply = none

def Probe.promotes (x : Probe) : Bool :=
  match x.kind with
  | .check _ promote => promote
  | .find _ => true

namespace Discovery

variable {env : Env} {cfg : Config} {w u : Discovery} {a : Action}

/-- A step, without what it sends. --/
def next (env : Env) (cfg : Config) (w : Discovery) (a : Action) : Option Discovery := (step env cfg w a).map Prod.fst

def Finds (w : Discovery) (x : Probe) : Prop :=
  ∀ ref promote, x.kind = .check ref promote → ∃ n, w.peers.objects[ref]? = some n ∧ n.id = x.nodeID

/-- What each action can do. --/
inductive Moves (env : Env) (cfg : Config) (w : Discovery) : Action → Core → Prop where
  | quiet {a : Action} : Moves env cfg w a w.core
  | handled {addr remoteAddr : String} {srcIface : Interface} {pkt : SignedPacket} {nonce : UInt64} {c : Core} :
    env.net.resolve addr = some remoteAddr → Handles env cfg w.now remoteAddr srcIface pkt w.core c →
    Moves env cfg w (.frame addr srcIface pkt nonce) c
  | queued {a : Action} {xs : List Probe} : (∀ x ∈ xs, x.Fresh ∧ w.Finds x) →
    Moves env cfg w a { w.core with probes := w.probes ++ xs }
  | sent {k : Nat} {x : Probe} {ok : Bool} {nonce : UInt64} : w.probes[k]? = some x → x.phase = .queued →
    Moves env cfg w (.measure k ok)
      { w.core with
        probes := w.probes.set k
          { x with phase := .waiting nonce w.now, sent := some (nonce, w.heard.length), reply := none }
        pending := w.pending.set nonce ⟨x.nodeID, k⟩ }
  | unsent {k : Nat} {x : Probe} {ok : Bool} : w.probes[k]? = some x → x.phase = .queued →
    Moves env cfg w (.measure k ok)
      { w.core with probes := w.probes.set k { x with phase := .measured (maxLatency + 1) } }
  | answered {k : Nat} {x : Probe} {nonce : UInt64} {latency arrival : Int} : w.probes[k]? = some x →
    x.reply = some arrival →
    Moves env cfg w (.answered k)
      { w.core with probes := w.probes.set k { x with phase := .measured latency }, pending := w.pending.delete nonce }
  | timedOut {k : Nat} {x : Probe} {nonce : UInt64} : w.probes[k]? = some x →
    Moves env cfg w (.timeout k)
      { w.core with
        probes := w.probes.set k { x with phase := .measured (maxLatency + 1) }, pending := w.pending.delete nonce }
  | canceled {k : Nat} {x : Probe} {nonce : UInt64} : w.probes[k]? = some x →
    Moves env cfg w (.canceled k)
      { w.core with
        probes := w.probes.set k { x with phase := .measured maxLatency }, pending := w.pending.delete nonce }
  | concluded {k : Nat} {x : Probe} {latency : Int} : w.probes[k]? = some x → x.phase = .measured latency →
    Moves env cfg w (.conclude k)
      { w.core with probes := w.probes.set k { x with phase := .done }, peers := w.concludeProbe x latency }

def Probes (w : Discovery) (x : Probe) (ref : Nat) : Prop :=
  match x.kind with
  | .check r _ => ref = r
  | .find _ => w.peers.nodes.get? x.nodeID = some ref

theorem concludeProbe_cases (w : Discovery) (x : Probe) (latency : Int) :
    w.concludeProbe x latency = w.peers ∨ ∃ ref n lat active lastSeen, w.Probes x ref ∧ w.peers.objects[ref]? = some n ∧
      w.concludeProbe x latency = w.peers.setObject ref { n with latency := lat, active, lastSeen } ∧
      (active = true → n.active = true ∨ latency ≤ maxLatency ∧ x.promotes = true) := by
  rw [concludeProbe]
  split
  next ref promote hkind =>
    split
    · exact .inl rfl
    next n hn =>
    have hprobes : w.Probes x ref := by rw [Probes, hkind]
    split
    · split
      · exact .inl rfl
      · exact .inr ⟨ref, n, n.latency, false, n.lastSeen, hprobes, hn, rfl, fun h => nomatch h⟩
    next hfast =>
      refine .inr ?_
      split
      next hpromote =>
        refine ⟨ref, n, latency, true, w.now, hprobes, hn, rfl, fun _ => .inr ⟨Int.not_lt.mp hfast, ?_⟩⟩
        rw [Probe.promotes, hkind]
        exact hpromote
      · exact ⟨ref, n, latency, n.active, n.lastSeen, hprobes, hn, rfl, .inl⟩
  next hkind =>
    split
    · exact .inl rfl
    next hfast =>
    split
    · exact .inl rfl
    next ref href =>
    split
    · exact .inl rfl
    next n hn =>
    have hprobes : w.Probes x ref := by rw [Probes, hkind]; exact href
    refine .inr ⟨ref, n, latency, true, w.now, hprobes, hn, rfl, fun _ => .inr ⟨Int.not_lt.mp hfast, ?_⟩⟩
    rw [Probe.promotes, hkind]

theorem moves_checkLatencies : Moves env cfg w .checkLatencies (w.checkLatencies env).core := by
  have hlisted : ∀ promote (e : Nat × Node),
      e ∈ (env.iter.order w.peers.nodes).filterMap (fun e => w.peers.objects[e.2]?.map fun n => (e.2, n)) →
      (⟨.check e.1 promote, e.2.id, .queued, none, none⟩ : Probe).Fresh ∧
        w.Finds ⟨.check e.1 promote, e.2.id, .queued, none, none⟩ := by
    intro promote e he
    obtain ⟨⟨id, ref⟩, -, he⟩ := mem_filterMap.mp he
    obtain ⟨n, hn, rfl⟩ := map_eq_some_iff.mp he
    refine ⟨⟨rfl, rfl, rfl⟩, fun ref' promote' hkind => ?_⟩
    cases hkind
    exact ⟨n, hn, rfl⟩
  rw [checkLatencies]
  simp only [append_assoc]
  refine .queued fun x hx => ?_
  rcases mem_append.mp hx with hx | hx
  · obtain ⟨e, he, rfl⟩ := mem_map.mp hx
    exact hlisted false e (mem_of_mem_filter he)
  · obtain ⟨e, he, rfl⟩ := mem_map.mp hx
    exact hlisted true e (mem_of_mem_filter (mem_of_mem_take he))

theorem moves_measure {k : Nat} {x : Probe} {ok : Bool} (hx : w.probes[k]? = some x) (hp : x.phase = .queued) :
    Moves env cfg w (.measure k ok) (w.measure env cfg k x ok).1.core := by
  simp only [measure]
  split
  · exact .unsent hx hp
  · exact .sent hx hp

theorem step_cases (hnext : next env cfg w a = some u) : Moves env cfg w a u.core := by
  obtain ⟨⟨u', emits⟩, h, rfl⟩ := map_eq_some_iff.mp hnext
  clear hnext
  cases a with
  | frame addr srcIface pkt nonce =>
    have hu := congrArg Prod.fst (Option.some.inj h)
    subst hu
    rcases receive_handles addr nonce with hsame | ⟨remoteAddr, hresolve, hhandles⟩
    · rw [hsame]
      exact .quiet
    · exact .handled hresolve hhandles
  | checkLatencies =>
    cases h
    exact moves_checkLatencies
  | findNode target =>
    obtain ⟨v, hv, h⟩ := map_eq_some_iff.mp h
    cases h
    obtain ⟨n, -, hv⟩ := bind_eq_some_iff.mp hv
    split at hv
    · cases hv
    · cases hv
      refine .queued fun x hx => ?_
      obtain rfl := mem_singleton.mp hx
      exact ⟨⟨rfl, rfl, rfl⟩, fun ref promote hkind => nomatch hkind⟩
  | measure k ok =>
    obtain ⟨x, hx, h⟩ := bind_eq_some_iff.mp h
    split at h
    next hp =>
      have hu := congrArg Prod.fst (Option.some.inj h)
      subst hu
      exact moves_measure hx hp
    · cases h
  | answered k =>
    obtain ⟨x, hx, h⟩ := bind_eq_some_iff.mp h
    split at h
    next hreply =>
      cases h
      exact .answered hx hreply
    · cases h
  | timeout k =>
    obtain ⟨x, hx, h⟩ := bind_eq_some_iff.mp h
    split at h
    · split at h
      · cases h
        exact .timedOut hx
      · cases h
    · cases h
  | canceled k =>
    obtain ⟨x, hx, h⟩ := bind_eq_some_iff.mp h
    split at h
    · split at h
      · cases h
        exact .canceled hx
      · cases h
    · cases h
  | conclude k =>
    obtain ⟨x, hx, h⟩ := bind_eq_some_iff.mp h
    split at h
    next hp =>
      cases h
      exact .concluded hx hp
    · cases h
  | setRelay on nonce | setRelayIDs ids nonce
  | announceSelf | requestPath | sendRouted | broadcastDiscovery | gossipPeers | tick | stop =>
    cases h
    exact .quiet

end Discovery
end SyncSwarm.Discovery
