import SyncSwarm.Theorems.Discovery.Moves
import SyncSwarm.Discovery.External

/-! What a step does to the rest of the state. -/

set_option linter.dupNamespace false

namespace SyncSwarm.Discovery
open Lib Protocol List Option

def DedupSet.after (d : DedupSet) (now : Int) (key : Option String) : DedupSet :=
  key.elim d fun key => (d.observe now key).2

namespace Discovery
variable {env : Env} {cfg : Config} {w u : Discovery} {a : Action} {addr remoteAddr : String} {srcIface : Interface}
  {pkt : SignedPacket}
  {nonce : UInt64}

/-- The caches and the counts of a node. --/
structure Shell where
  seenAnn : DedupSet
  routedSeen : DedupSet
  addrIface : GoMap String Interface
  capabilities : List String
  now : Int
  delivered : List (Bytes × String)
  observed : GoMap String Nat

def shell (w : Discovery) : Shell :=
  ⟨w.seenAnn, w.routedSeen, w.addrIface, w.capabilities, w.now, w.delivered, w.observedCounts⟩

def tally (counts : GoMap String Nat) (report : Option Report) : GoMap String Nat :=
  report.elim counts fun r => counts.set r.host ((counts.get? r.host).getD 0 + 1)

def signedReport (env : Env) (pkt : SignedPacket) : Option Report :=
  if pkt.verify env.sigs = false then none else reported env pkt

theorem reported_eq_none (h : pkt.type ≠ .latencyReply) : reported env pkt = none := if_neg h

/-! ### Keys -/

/-- The key under which announces are remembered. --/
def announceKey (ap : AnnouncePayload) : String := ap.destHash ++ ":" ++ u64hex ap.nonce

def floodKey (env : Env) (cfg : Config) (pkt : SignedPacket) : Option String :=
  match pkt.type with
  | .announce => (env.json.announce.unmarshal pkt.payload).bind fun ap =>
      if ap.destHash = cfg.selfID ∨ ap.verifyBound env.sigs = false then none else some (announceKey ap)
  | .pathRequest => (env.json.pathRequest.unmarshal pkt.payload).bind fun pr =>
      if pr.destHash = "" then none else some ("REQ:" ++ pr.destHash ++ ":" ++ u64hex pr.nonce)
  | _ => none

def signedKey (env : Env) (cfg : Config) (pkt : SignedPacket) : Option String :=
  if pkt.verify env.sigs = false then none else floodKey env cfg pkt

def routedKey (pkt : SignedPacket) : Option String :=
  match pkt.type with
  | .routed | .routedDiscovery => some (hexString pkt.id.val)
  | _ => none

def Shell.hands (cfg : Config) (s : Shell) (pkt : SignedPacket) : List (Bytes × String) :=
  if pkt.type = .routed ∧ pkt.destNode = cfg.selfID ∧ (s.routedSeen.observe s.now (hexString pkt.id.val)).1 = false then
    [(routedInner pkt.payload, pkt.sourceNode)]
  else []

/-! ### Handlers -/

@[simp] theorem shell_rememberIface (id : String) (i : Interface) : (w.rememberIface id i).shell = w.shell := by
  rw [rememberIface]
  split <;> rfl

@[simp] theorem shell_rememberAddrIface (addr : String) (i : Interface) :
    (w.rememberAddrIface addr i).shell = { w.shell with addrIface := (w.rememberAddrIface addr i).addrIface } := by
  rw [rememberAddrIface]
  split <;> rfl

@[simp] theorem shell_resolveLatency (n : UInt64) (signer : String) : (w.resolveLatency n signer).shell = w.shell := by
  rw [resolveLatency]
  split
  · rfl
  · split <;> rfl

theorem shell_recordObserved (observed peer : String) (n : UInt64) : (w.recordObserved env observed).shell =
    { w.shell with
      observed :=
        tally w.observedCounts (((env.net.splitHost observed).filter (· ≠ "")).map fun host => ⟨peer, n, host⟩) } := by
  rw [recordObserved]
  split
  next hnone =>
    rw [hnone]
    rfl
  next host hhost =>
    rw [hhost]
    split
    next hempty =>
      rw [Option.filter_some_neg (by simp [hempty])]
      rfl
    next hempty =>
      rw [Option.filter_some_pos (by simp [hempty])]
      rfl

theorem shell_acceptAnnounce (ap : AnnouncePayload) : (w.acceptAnnounce env cfg remoteAddr ap).1.shell = w.shell := by
  rw [acceptAnnounce, sighted_eq]
  rfl

theorem shell_observed (h : u.shell = w.shell) (key : String) :
    ({ u with seenAnn := (u.seenAnn.observe u.now key).2 } : Discovery).shell =
      { w.shell with seenAnn := w.seenAnn.after w.now (some key) } :=
  congrArg (fun s : Shell => { s with seenAnn := (s.seenAnn.observe s.now key).2 }) h

theorem shell_handleAnnounce (htype : pkt.type = .announce) :
    (w.handleAnnounce env cfg remoteAddr srcIface pkt).1.shell =
    { w.shell with seenAnn := w.seenAnn.after w.now (floodKey env cfg pkt) } := by
  rw [handleAnnounce, floodKey, htype]
  cases env.json.announce.unmarshal pkt.payload with
  | none => rfl
  | some ap =>
    simp only [bind_some]
    split
    · rfl
    · have hmarked := shell_observed (shell_rememberIface (w := w) ap.destHash srcIface) (announceKey ap)
      split
      · exact hmarked
      · rw [shell_acceptAnnounce]
        exact hmarked

theorem shell_handlePathRequest (htype : pkt.type = .pathRequest) : (w.handlePathRequest env cfg pkt nonce).1.shell =
    { w.shell with seenAnn := w.seenAnn.after w.now (floodKey env cfg pkt) } := by
  rw [handlePathRequest, floodKey, htype]
  cases env.json.pathRequest.unmarshal pkt.payload with
  | none => rfl
  | some pr =>
    simp only [bind_some]
    split
    · rfl
    · split <;> rfl

theorem shell_handleDiscovery {payload : DiscoveryPayload}
    (hpayload : env.json.discovery.unmarshal pkt.payload = some payload) :
    (w.handleDiscovery env cfg remoteAddr pkt payload).1.shell =
      { w.shell with observed := tally w.observedCounts (reported env pkt) } := by
  rw [handleDiscovery]
  split
  next htype =>
    rw [reported_eq_none (htype.trans_ne (by decide))]
    split <;> rfl
  next htype =>
    rw [reported_eq_none (htype.trans_ne (by decide))]
    split <;> rfl
  next htype =>
    rw [shell_resolveLatency, reported, if_pos htype, hpayload, bind_some]
    split
    next haddr =>
      exact shell_recordObserved payload.observedAddr _ payload.nonce
    next haddr =>
      rw [if_pos (not_not.mp haddr)]
      rfl
  next hreply =>
    rw [reported_eq_none hreply]
    rfl

theorem floodKey_eq_none (hann : pkt.type ≠ .announce) (hreq : pkt.type ≠ .pathRequest) :
    floodKey env cfg pkt = none := by
  rw [floodKey]
  split
  · next h => exact absurd h hann
  · next h => exact absurd h hreq
  · rfl

theorem shell_handleSigned : (w.handleSigned env cfg remoteAddr srcIface pkt nonce).1.shell =
    { w.shell with
      seenAnn := w.seenAnn.after w.now (floodKey env cfg pkt)
      observed := tally w.observedCounts (reported env pkt) } := by
  have hquiet : pkt.type ≠ .announce → pkt.type ≠ .pathRequest → pkt.type ≠ .latencyReply →
      ({ w.shell with
         seenAnn := w.seenAnn.after w.now (floodKey env cfg pkt)
         observed := tally w.observedCounts (reported env pkt) } : Shell) = w.shell := by
    intro hann hreq hreply
    rw [floodKey_eq_none hann hreq, reported_eq_none hreply]
    rfl
  rw [handleSigned]
  split
  next htype =>
    rw [hquiet (htype.trans_ne (by decide)) (htype.trans_ne (by decide)) (htype.trans_ne (by decide))]
    split <;> rfl
  next htype =>
    rw [hquiet (htype.trans_ne (by decide)) (htype.trans_ne (by decide)) (htype.trans_ne (by decide))]
    split
    · rfl
    · rw [handleFindNode]
      split <;> rfl
  next htype =>
    rw [hquiet (htype.trans_ne (by decide)) (htype.trans_ne (by decide)) (htype.trans_ne (by decide))]
    split <;> rfl
  next htype =>
    rw [shell_handleAnnounce htype, reported_eq_none (htype.trans_ne (by decide))]
    rfl
  next htype =>
    rw [shell_handlePathRequest htype, reported_eq_none (htype.trans_ne (by decide))]
    rfl
  · next htype => rw [hquiet (htype.trans_ne (by decide)) (htype.trans_ne (by decide)) (htype.trans_ne (by decide))]
  · next htype => rw [hquiet (htype.trans_ne (by decide)) (htype.trans_ne (by decide)) (htype.trans_ne (by decide))]
  next hann hreq _ _ =>
    rw [floodKey_eq_none hann hreq]
    split
    next hpayload =>
      rw [reported, hpayload, bind_none, ite_self]
      rfl
    · next payload hpayload => exact shell_handleDiscovery hpayload

theorem shell_handleRouted (htype : pkt.type = .routed) : (w.handleRouted cfg pkt).1.shell =
    { w.shell with
      routedSeen := w.routedSeen.after w.now (routedKey pkt), delivered := w.delivered ++ w.shell.hands cfg pkt } := by
  have hkey : routedKey pkt = some (hexString pkt.id.val) := by rw [routedKey, htype]
  rw [handleRouted, hkey, Shell.hands]
  simp only
  split
  next hseen =>
    rw [if_neg fun h => absurd (hseen.symm.trans h.2.2) Bool.noConfusion, append_nil]
    rfl
  next hseen =>
    split
    next hdest =>
      rw [if_pos ⟨htype, hdest, eq_false_of_ne_true hseen⟩]
      rfl
    next hdest =>
      rw [if_neg fun h => hdest h.2.1, append_nil]
      rfl

theorem shell_learnReverse (ip : SignedPacket) : (w.learnReverse env ip remoteAddr srcIface).shell = w.shell :=
  shell_rememberIface (ip.signerID env.sigs) srcIface

theorem shell_acceptRoutedDiscovery (ip : SignedPacket) (payload : DiscoveryPayload) :
    (w.acceptRoutedDiscovery env cfg ip payload remoteAddr srcIface).1.shell = w.shell := by
  have hreverse : (w.learnReverse env ip remoteAddr srcIface).shell = w.shell := shell_learnReverse ip
  rw [acceptRoutedDiscovery]
  split
  · exact hreverse
  · rw [shell_resolveLatency, hreverse]
  · exact hreverse
  · exact hreverse

theorem shell_handleRoutedDiscovery (htype : pkt.type = .routedDiscovery) :
    (w.handleRoutedDiscovery env cfg pkt remoteAddr srcIface).1.shell =
      { w.shell with routedSeen := w.routedSeen.after w.now (routedKey pkt) } := by
  have hkey : routedKey pkt = some (hexString pkt.id.val) := by rw [routedKey, htype]
  rw [hkey]
  simp only [handleRoutedDiscovery]
  split
  · rfl
  split
  swap
  · rfl
  split
  · rfl
  rw [deliverRoutedDiscovery]
  split
  · rfl
  simp only
  split
  · rfl
  split
  · rfl
  split
  · rfl
  · rw [shell_acceptRoutedDiscovery]
    rfl

theorem signedKey_eq_none (hann : pkt.type ≠ .announce) (hreq : pkt.type ≠ .pathRequest) :
    signedKey env cfg pkt = none := by
  rw [signedKey, floodKey_eq_none hann hreq, ite_self]

theorem signedReport_eq_none (h : pkt.type ≠ .latencyReply) : signedReport env pkt = none := by
  rw [signedReport, reported_eq_none h, ite_self]

theorem routedKey_eq_none (hrouted : pkt.type ≠ .routed) (hdiscovery : pkt.type ≠ .routedDiscovery) :
    routedKey pkt = none := by
  rw [routedKey]
  split
  · next h => exact absurd h hrouted
  · next h => exact absurd h hdiscovery
  · rfl

theorem hands_eq_nil (h : pkt.type ≠ .routed) : w.shell.hands cfg pkt = [] := if_neg fun h' => h h'.1

theorem receive_unresolved (hresolve : env.net.resolve addr = none) :
    w.receive env cfg addr srcIface pkt nonce = (w, []) := by
  rw [receive, hresolve]

theorem shell_receive (hresolve : env.net.resolve addr = some remoteAddr) :
    (w.receive env cfg addr srcIface pkt nonce).1.shell =
      { w.shell with
        addrIface := (w.rememberAddrIface addr srcIface).addrIface
        seenAnn := w.seenAnn.after w.now (signedKey env cfg pkt)
        routedSeen := w.routedSeen.after w.now (routedKey pkt)
        delivered := w.delivered ++ w.shell.hands cfg pkt
        observed := tally w.observedCounts (signedReport env pkt) } := by
  have hfrom := shell_rememberAddrIface (w := w) addr srcIface
  rw [receive, hresolve]
  simp only
  generalize w.rememberAddrIface addr srcIface = v at hfrom ⊢
  have hkept : signedKey env cfg pkt = none → signedReport env pkt = none → pkt.type ≠ .routed →
    pkt.type ≠ .routedDiscovery →
      v.shell =
        { w.shell with
          addrIface := v.addrIface
          seenAnn := w.seenAnn.after w.now (signedKey env cfg pkt)
          routedSeen := w.routedSeen.after w.now (routedKey pkt)
          delivered := w.delivered ++ w.shell.hands cfg pkt
          observed := tally w.observedCounts (signedReport env pkt) } := by
    intro hsigned hreport hrouted hdiscovery
    rw [hsigned, hreport, routedKey_eq_none hrouted hdiscovery, hands_eq_nil hrouted, append_nil]
    exact hfrom
  split
  next htype =>
    exact hkept (signedKey_eq_none (htype.trans_ne (by decide)) (htype.trans_ne (by decide)))
      (signedReport_eq_none (htype.trans_ne (by decide))) (htype.trans_ne (by decide)) (htype.trans_ne (by decide))
  next htype =>
    exact hkept (signedKey_eq_none (htype.trans_ne (by decide)) (htype.trans_ne (by decide)))
      (signedReport_eq_none (htype.trans_ne (by decide))) (htype.trans_ne (by decide)) (htype.trans_ne (by decide))
  next htype =>
    exact hkept (signedKey_eq_none (htype.trans_ne (by decide)) (htype.trans_ne (by decide)))
      (signedReport_eq_none (htype.trans_ne (by decide))) (htype.trans_ne (by decide)) (htype.trans_ne (by decide))
  next htype =>
    rw [shell_handleRoutedDiscovery htype, signedKey_eq_none (htype.trans_ne (by decide)) (htype.trans_ne (by decide)),
      hands_eq_nil (htype.trans_ne (by decide)),
      signedReport_eq_none (htype.trans_ne (by decide)), append_nil]
    exact congrArg (fun s : Shell => { s with routedSeen := s.routedSeen.after s.now (routedKey pkt) }) hfrom
  next htype =>
    rw [shell_handleRouted htype, signedKey_eq_none (htype.trans_ne (by decide)) (htype.trans_ne (by decide)),
      signedReport_eq_none (htype.trans_ne (by decide))]
    exact congrArg
      (fun s : Shell =>
        { s with routedSeen := s.routedSeen.after s.now (routedKey pkt), delivered := s.delivered ++ s.hands cfg pkt })
          hfrom
  next hdiscovery hrouted =>
    split
    · next hverify => exact hkept (if_pos hverify) (if_pos hverify) hrouted hdiscovery
    next hverify =>
      have hsigned : signedKey env cfg pkt = floodKey env cfg pkt := if_neg hverify
      have hheard : ({ v with heard := v.heard ++ [pkt] } : Discovery).shell = v.shell := rfl
      have hreport : signedReport env pkt = reported env pkt := if_neg hverify
      rw [hsigned, hreport, routedKey_eq_none hrouted hdiscovery, hands_eq_nil hrouted, append_nil, shell_handleSigned]
      exact congrArg
        (fun s : Shell =>
          { s with
            seenAnn := s.seenAnn.after s.now (floodKey env cfg pkt), observed := tally s.observed (reported env pkt) })
        ((shell_rememberIface _ _).trans (hheard.trans hfrom))

@[simp] theorem capabilities_rememberIface (nodeID : String) (i : Interface) :
    (w.rememberIface nodeID i).capabilities = w.capabilities :=
  congrArg Shell.capabilities (shell_rememberIface nodeID i)

@[simp] theorem capabilities_rememberAddrIface (addr : String) (i : Interface) :
    (w.rememberAddrIface addr i).capabilities = w.capabilities :=
  congrArg Shell.capabilities (shell_rememberAddrIface addr i)

theorem capabilities_receive : (w.receive env cfg addr srcIface pkt nonce).1.capabilities = w.capabilities := by
  cases hresolve : env.net.resolve addr with
  | none => rw [receive_unresolved hresolve]
  | some remoteAddr => exact congrArg Shell.capabilities (shell_receive hresolve)

theorem addrIface_receive (nonce : UInt64) (hresolve : env.net.resolve addr = some remoteAddr) :
    (w.receive env cfg addr srcIface pkt nonce).1.addrIface = (w.rememberAddrIface addr srcIface).addrIface :=
  congrArg Shell.addrIface (shell_receive hresolve)

/-! ### Steps -/

theorem shell_step (hframe : ∀ addr i pkt nonce, a ≠ .frame addr i pkt nonce) (hnext : next env cfg w a = some u) :
    ∃ (capabilities : List String) (elapsed : Nat), u.shell = { w.shell with capabilities, now := w.now + elapsed } ∧
      ((∀ on nonce, a ≠ .setRelay on nonce) → capabilities = w.capabilities) := by
  obtain ⟨⟨u', emits⟩, h, rfl⟩ := map_eq_some_iff.mp hnext
  clear hnext
  have hsame : u'.shell = w.shell → ∃ (capabilities : List String) (elapsed : Nat),
      u'.shell = { w.shell with capabilities, now := w.now + elapsed } ∧
        ((∀ on nonce, a ≠ .setRelay on nonce) → capabilities = w.capabilities) :=
    fun heq => ⟨w.capabilities, 0, heq.trans (by rw [Int.natCast_zero, Int.add_zero]; rfl), fun _ => rfl⟩
  cases a with
  | frame addr srcIface pkt nonce => exact absurd rfl (hframe addr srcIface pkt nonce)
  | findNode target =>
    obtain ⟨v, hv, h⟩ := map_eq_some_iff.mp h
    cases h
    obtain ⟨n, -, hv⟩ := bind_eq_some_iff.mp hv
    split at hv
    · cases hv
    · cases hv
      exact hsame rfl
  | measure k ok =>
    obtain ⟨x, -, h⟩ := bind_eq_some_iff.mp h
    split at h
    · have hu := congrArg Prod.fst (Option.some.inj h)
      subst hu
      refine hsame ?_
      simp only [measure]
      split <;> rfl
    · cases h
  | answered k | conclude k =>
    obtain ⟨x, -, h⟩ := bind_eq_some_iff.mp h
    split at h
    · cases h
      exact hsame rfl
    · cases h
  | timeout k | canceled k =>
    obtain ⟨x, -, h⟩ := bind_eq_some_iff.mp h
    split at h
    · split at h
      · cases h
        exact hsame rfl
      · cases h
    · cases h
  | setRelay on nonce =>
    cases h
    exact ⟨_, 0, by rw [Int.natCast_zero, Int.add_zero]; rfl, fun hrelay => absurd rfl (hrelay on nonce)⟩
  | tick elapsed =>
    cases h
    exact ⟨w.capabilities, elapsed, rfl, fun _ => rfl⟩
  | checkLatencies | announceSelf | requestPath | sendRouted | broadcastDiscovery | gossipPeers | setRelayIDs | stop =>
    cases h
    exact hsame rfl

theorem frame_or (a : Action) :
    (∃ addr i pkt nonce, a = .frame addr i pkt nonce) ∨ ∀ addr i pkt nonce, a ≠ .frame addr i pkt nonce := by
  by_cases h : ∃ addr i pkt nonce, a = .frame addr i pkt nonce
  · exact .inl h
  · exact .inr fun addr i pkt nonce heq => h ⟨addr, i, pkt, nonce, heq⟩

theorem capabilities_step {emits : List Emit} (h : step env cfg w a = some (u, emits))
    (ha : ∀ on nonce, a ≠ .setRelay on nonce) :
    u.capabilities = w.capabilities := by
  have hnext : next env cfg w a = some u := by rw [next, h]; rfl
  rcases frame_or a with ⟨addr, srcIface, pkt, nonce, rfl⟩ | hframe
  · obtain rfl : (w.receive env cfg addr srcIface pkt nonce).1 = u := Option.some.inj hnext
    exact capabilities_receive
  · obtain ⟨capabilities, elapsed, hshell, hkept⟩ := shell_step hframe hnext
    exact (congrArg Shell.capabilities hshell).trans (hkept ha)

theorem addrIface_step (hframe : ∀ addr i pkt nonce, a ≠ .frame addr i pkt nonce) (hnext : next env cfg w a = some u) :
    u.addrIface = w.addrIface := by
  obtain ⟨capabilities, elapsed, hshell, -⟩ := shell_step hframe hnext
  exact congrArg Shell.addrIface hshell

end Discovery
end SyncSwarm.Discovery
