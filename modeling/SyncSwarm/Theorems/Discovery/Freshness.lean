import SyncSwarm.Theorems.Discovery.Liveness
import SyncSwarm.Theorems.Discovery.Paths

/-! The times by which entries of the path table are compared: those that their destinations have signed, unless a
    routed packet brings its own. -/

set_option linter.dupNamespace false

namespace SyncSwarm.Discovery
open Lib Protocol List Option

/-- The node has signed an announce of itself with the timestamp. --/
def Attested (env : Env) (signed : Bytes → Bytes → Prop) (id : String) (ts : Int) : Prop :=
  ∃ ap : AnnouncePayload, deriveNodeID env.sigs ap.signKey = id ∧ ap.destHash = id ∧ signed ap.signKey ap.signedBytes ∧
    ap.timestamp = ts

namespace Discovery
variable {env : Env} {cfg : Config} {w u : Discovery} {a : Action} {signed : Bytes → Bytes → Prop}

/-- A discovery packet that was routed to this node has a time that its signer has attested, unless the path table holds
    a better entry. --/
def Timed (env : Env) (cfg : Config) (signed : Bytes → Bytes → Prop) (w : Discovery) : Action → Prop
  | .frame addr srcIface pkt _ => pkt.type = .routedDiscovery → ∀ ip, Brings cfg pkt ip → ip.verify env.sigs = true →
      Attested env signed (ip.signerID env.sigs) ip.timestamp ∨
        ¬w.paths.Accepts (ip.signerID env.sigs) (reversePath ((env.net.resolve addr).getD "") srcIface ip w.now)
  | _ => True

def AllAttested (env : Env) (signed : Bytes → Bytes → Prop) (pt : PathTable) : Prop :=
  ∀ D e, pt.lookup D = some e → Attested env signed D e.originTS

theorem AllAttested.update (pt : PathTable) {dest : String} {e : PathEntry} {writer : Writer}
    (h : AllAttested env signed pt) (he : Attested env signed dest e.originTS ∨ ¬pt.Accepts dest e) :
    AllAttested env signed (pt.update env.pathIter dest e writer).1 := by
  intro D e' hlookup
  rcases PathTable.lookup_update hlookup with ⟨rfl, rfl, haccepts⟩ | ⟨old, lastSeen, hold, rfl⟩
  · exact he.resolve_right (not_not_intro haccepts)
  · exact h D old hold

theorem Unforgeable.attested (hsig : Unforgeable env signed) {ap : AnnouncePayload}
    (h : ap.verifyBound env.sigs = true) :
    Attested env signed ap.destHash ap.timestamp :=
  have ⟨hid, hsigned⟩ := hsig.announce h
  ⟨ap, hid, rfl, hsigned, rfl⟩

theorem Handles.attested {remoteAddr addr : String} {srcIface : Interface} {pkt : SignedPacket} {nonce : UInt64}
    {c : Core} (hsig : Unforgeable env signed) (hresolve : env.net.resolve addr = some remoteAddr)
    (htimed : Timed env cfg signed w (.frame addr srcIface pkt nonce))
    (h : Handles env cfg w.now remoteAddr srcIface pkt w.core c) (hw : AllAttested env signed w.paths) :
    AllAttested env signed c.paths := by
  have hreverse : ∀ ip, Brings cfg pkt ip → pkt.type = .routedDiscovery → ip.verify env.sigs = true →
      AllAttested env signed
        (w.paths.update env.pathIter (ip.signerID env.sigs) (reversePath remoteAddr srcIface ip w.now)
        .reversed).1 := by
    intro ip hbrings htype hv
    refine AllAttested.update w.paths hw ?_
    have := htimed htype ip hbrings hv
    rwa [hresolve] at this
  cases h with
  | announced _ _ _ _ hbound => exact AllAttested.update w.paths hw (.inl (Unforgeable.attested hsig hbound))
  | replied => rwa [Core.paths_reply]
  | routed hbrings htype hv | routedPeer hbrings htype hv => exact hreverse _ hbrings htype hv
  | routedReply hbrings htype hv => rw [Core.paths_reply]; exact hreverse _ hbrings htype hv
  | _ => exact hw

/-- In every run whose routed packets bring no other times, the entries of the path table have attested times; so an
    announce of a node that is not older than what it has attested is never rejected as stale. --/
theorem paths_attested {capabilities : List String} {now : Int} {as : List Action} (hsig : Unforgeable env signed)
    (htimed : Along (next env cfg) (Timed env cfg signed) (new capabilities now) as)
    (hrun : exec (next env cfg) (new capabilities now) as = some w) :
    (∀ D e, w.paths.lookup D = some e → Attested env signed D e.originTS) ∧
    ∀ D ts, (∀ t, Attested env signed D t → t ≤ ts) → ∀ e, w.paths.lookup D = some e → ¬ts < e.originTS := by
  have hinv : AllAttested env signed w.paths := by
    refine exec_keeps_along (P := fun w => AllAttested env signed w.paths) ?_ ?_ htimed hrun
    · intro w a u ha hw hstep
      have hmoves := step_cases hstep
      show AllAttested env signed u.core.paths
      generalize u.core = c at hmoves
      cases hmoves with
      | handled hresolve hhandles => exact hhandles.attested hsig hresolve ha hw
      | _ => exact hw
    · intro D e hD
      rw [new, PathTable.lookup, PathTable.new, GoMap.get?_empty] at hD
      cases hD
  exact ⟨hinv, fun D ts hts e he => Int.not_lt.mpr (hts _ (hinv D e he))⟩

end Discovery

/-! ### Three nodes -/

namespace Trio

def announcePacket : SignedPacket where
  id := .copy 32 (beBytes 32 0x7d942baf3c730f5a3fdefbd2b70402e6de87a800891c0445205b9bd0d416efcc)
  type := .announce
  timestamp := start
  sourceNode := peerID
  destGroup := "ANY"
  payloadSize := 397
  payload := announceJson
  signerKey := peerKey
  signature :=
    beBytes 32 0x590fffb0b5308a3e5d8bfb5143b35c83e1a8f5844db7367eb8b759f67c190409 ++
    beBytes 32 0x5564cd9e43c3e31a052105f298ddd927cf7764dafe7f6fc15b06aa99a474e60d

def peerSigned : List (Bytes × Bytes × Bytes) :=
  [(peerKey, peerPacket.canonicalBytes, peerPacket.signature), (peerKey, peerAnnounce.signedBytes, announceSignature),
   (peerKey, announcePacket.canonicalBytes, announcePacket.signature)]

def freshEnv : Env :=
  envOf peerSigned []
    { noJson with announce := codecOf [(peerAnnounce, announceJson)], discovery := codecOf [(peerPayload, peerJson)] }

def routedPacket (timestamp : Int) : SignedPacket where
  id := .copy 32 [1]
  type := .routedDiscovery
  timestamp := start
  sourceNode := thirdID
  destNode := selfID
  payload := encodeRouted 16 (marshalBinary { peerPacket with timestamp })

def later : Int := 4102444800000000000

end Trio

namespace Discovery
open Trio

theorem attested_start : Attested freshEnv (Verified freshEnv) peerID start :=
  ⟨peerAnnounce, by decide +kernel, rfl, ⟨announceSignature, by decide +kernel⟩, rfl⟩

theorem paths_attested_routed : ∃ w e, exec (next freshEnv config) (new [] start)
      [.frame peerAddr udp announcePacket 0, .frame thirdAddr udp (routedPacket start) 0] = some w ∧
    w.paths.lookup peerID = some e ∧ Attested freshEnv (Verified freshEnv) peerID e.originTS := by
  have hrun : ((exec (next freshEnv config) (new [] start)
      [.frame peerAddr udp announcePacket 0, .frame thirdAddr udp (routedPacket start) 0]).bind fun w =>
        (w.paths.lookup peerID).map (·.originTS)) = some start := by decide +kernel
  have hip : (unmarshalBinary (routedInner (routedPacket start).payload)).map
    (fun ip => (ip.signerID freshEnv.sigs, ip.timestamp)) =
      some (peerID, start) := by decide +kernel
  have htimed : Along (next freshEnv config) (Timed freshEnv config (Verified freshEnv)) (new [] start)
      [.frame peerAddr udp announcePacket 0, .frame thirdAddr udp (routedPacket start) 0] := by
    refine ⟨nofun, fun _ _ => ⟨fun _ ip hbrings _ => .inl ?_, fun _ _ => trivial⟩⟩
    cases hbrings with
    | straight _ htype => exact absurd rfl htype
    | carried _ _ hunmarshal =>
      rw [hunmarshal, map_some, Option.some.injEq, Prod.mk.injEq] at hip
      rw [hip.1, hip.2]
      exact attested_start
  obtain ⟨w, hw, hpath⟩ := bind_eq_some_iff.mp hrun
  obtain ⟨e, he, -⟩ := map_eq_some_iff.mp hpath
  exact ⟨w, e, hw, he, (paths_attested (unforgeable_verified freshEnv) htimed hw).1 peerID e he⟩

theorem signedBytes_timestamp (ap : AnnouncePayload) :
    (ap.signedBytes.drop (ap.signedBytes.length - 16)).take 8 = be64 (UInt64.ofInt ap.timestamp) := by
  rw [AnnouncePayload.signedBytes, append_assoc]
  have hlen : (be64 (UInt64.ofInt ap.timestamp) ++ be64 ap.nonce).length = 16 := by simp
  rw [length_append, hlen, Nat.add_sub_cancel, drop_left, take_left' (length_be64 _)]

/-- A time that the peer has not signed comes into the table, and the peer's announce is rejected as older. --/
theorem path_unattested : Unforgeable freshEnv (Verified freshEnv) ∧ ∃ w e u,
    exec (next freshEnv config) (new [] start) [.frame thirdAddr udp (routedPacket later) 0] = some w ∧
    w.paths.lookup peerID = some e ∧ ¬Attested freshEnv (Verified freshEnv) peerID e.originTS ∧
    next freshEnv config w (.frame peerAddr udp announcePacket 0) = some u ∧ u.paths.lookup peerID = some e ∧
    peerAnnounce.timestamp < e.originTS := by
  refine ⟨unforgeable_verified freshEnv, ?_⟩
  have hrun : ((exec (next freshEnv config) (new [] start) [.frame thirdAddr udp (routedPacket later) 0]).bind fun w =>
      (next freshEnv config w (.frame peerAddr udp announcePacket 0)).bind fun u => (w.paths.lookup peerID).map fun e =>
        (e.originTS, decide (u.paths.lookup peerID = some e))) = some (later, true) := by decide +kernel
  obtain ⟨w, hw, hnext⟩ := bind_eq_some_iff.mp hrun
  obtain ⟨u, hu, hpath⟩ := bind_eq_some_iff.mp hnext
  obtain ⟨e, he, heq⟩ := map_eq_some_iff.mp hpath
  obtain ⟨hlater, hsame⟩ := Prod.mk.inj heq
  refine ⟨w, e, u, hw, he, ?_, hu, of_decide_eq_true hsame, hlater ▸ by decide⟩
  rintro ⟨ap, -, -, ⟨sig, hverify⟩, htimestamp⟩
  have hnone : ∀ m ∈ peerSigned, (m.2.1.drop (m.2.1.length - 16)).take 8 ≠
      be64 (UInt64.ofInt later) := by decide +kernel
  obtain ⟨m, hm, heq⟩ := any_eq_true.mp hverify
  obtain ⟨-, hmsg, -⟩ := of_decide_eq_true heq
  refine hnone m hm ?_
  rw [hmsg, signedBytes_timestamp, htimestamp, hlater]

end Discovery
end SyncSwarm.Discovery
